import FolkAround.ComputerUse.Artifacts
import FolkAround.ComputerUse.Semantic

/-!
# The handlers of the tools

One function for each tool, from its arguments and the access mode to its answer.

* `restrictedCommand` — what a shell command may be when the mode is not full.
* `shell`, `listApps`, `spawnCommand` — the tools that start processes.
* `image`, `see`, `screenCapture`, `uiSnapshot`, `click`, `setValue` — looking at the
  screen, and acting on what was seen.
* the others, most of which need full mode.
-/

namespace FolkAround
namespace ComputerUse

open Mcp (textResult errResult)

/-! ## Arguments -/

def strArg (args : Value) (key : String) : Option String := (args.get key).bind Value.asStr

def boolArg (args : Value) (key : String) : Option Bool := (args.get key).bind Value.asBool

def u64Arg (args : Value) (key : String) : Option UInt64 := (args.get key).bind Value.asU64

def intArg (env : Externals) (args : Value) (key : String) : Option Int :=
  match args.get key with
  | none => none
  | some value =>
    match value.asI64 with
    | some n => some n
    | none =>
      match value with
      | .number n => some (env.truncateI64 n)
      | _ => none

/-- An argument that has to be there. -/
def required {α : Type} (name : String) (arg : Option α) : Exec α := orFail (.missing name) arg

/-- `n as u32` of a number that is at least 1. -/
def countU32 (n : Int) : Nat := (max n 1).toNat % 2 ^ 32

def jsonTextResult (env : Externals) (value : Value) : Value := textResult (env.toText value)

def flatten (result : Exec Value) : Host Value := do
  match ← result.run with
  | .ok value => pure value
  | .error err => pure (errResult err.text)

/-- A call of the desktop automation that may fail. -/
def desktop {α : Type} (answer : Option α) : Exec α := orFail .peekaboo answer

/-! ## Processes -/

def safeCommands : List String :=
  ["ls", "cat", "grep", "find", "head", "tail", "wc", "curl", "echo", "date", "whoami",
    "hostname", "uname", "which", "pwd", "ps", "uptime", "df", "du"]

def restrictedShellChars : List Char :=
  [';', '&', '|', '<', '>', '(', ')', '\x7b', '\x7d', '[', ']', '$', '\x60', '\\', '\'', '"', '*', '?',
    '~', '\n', '\r']

/-- The words of a command. -/
def commandWords (command : String) : List String :=
  (Text.splitWhitespace command.toList).map String.ofList

/-- The program and its arguments, when the command is harmless enough. -/
def restrictedCommand (command : String) : Option (String × List String) :=
  if command.toList.any fun ch => ch ∈ restrictedShellChars then none
  else
    match commandWords command with
    | [] => none
    | program :: args => if program ∈ safeCommands then some (program, args) else none

structure CommandOutput where
  stdout : List Char
  stderr : List Char
  status : Int

def runCommand (program : String) (args : List String) (input cwd : Option String) :
    Exec CommandOutput := do
  let answer : Option ProcessOutput ← ExceptT.lift (perform (.run program args input cwd))
  let output ← orFail .io answer
  pure ⟨Utf8.fromUtf8Lossy output.stdout, Utf8.fromUtf8Lossy output.stderr, output.status.getD (-1)⟩

def runShell (command : String) (cwd : Option String) : Exec CommandOutput :=
  runCommand "/bin/sh" ["-c", command] none cwd

def outputText (output : CommandOutput) : Value :=
  textResult ("stdout:\n" ++ String.ofList output.stdout ++ "\n\nstderr:\n" ++
    String.ofList output.stderr ++ "\n\nexit: " ++ toString output.status)

def shell (args : Value) (mode : AccessMode) : Host Value := flatten do
  let command ← required "command" (strArg args "command")
  let cwd := strArg args "cwd"
  if mode = .full then do
    let output ← runShell command cwd
    pure (outputText output)
  else
    match restrictedCommand command with
    | some (program, words) => do
      let output ← runCommand program words none cwd
      pure (outputText output)
    | none => pure (errResult "command blocked in this mode")

def psArgs : List String := ["ax", "-o", "pid=,comm="]

def listApps (mode : AccessMode) : Host Value := flatten do
  let limit := if mode = .full then 50 else 30
  let output ← runCommand "ps" psArgs none none
  pure (textResult (String.ofList (List.intercalate ['\n'] ((Text.lines output.stdout).take limit))))

def spawnCommand (args : Value) (mode : AccessMode) : Host Value := flatten do
  if mode ≠ .full then pure (errResult "full mode only")
  else do
    let command ← required "command" (strArg args "command")
    let spawned : Option Unit ← ExceptT.lift (perform (.spawn "/bin/sh" ["-c", command]))
    orFail .io spawned
    pure (textResult "spawned")

def systemInfo (env : Externals) : Host Value :=
  pure (textResult ("os: " ++ env.os ++ "\narch: " ++ env.arch))

/-! ## The clipboard, permissions, displays -/

def clipboardRead : Host Value := flatten do
  let answer : Option String ← ExceptT.lift (perform .clipboardRead)
  let text ← desktop answer
  pure (if text = "" then textResult "(empty)" else textResult text)

/-- Do something on the desktop, and say that it is done. -/
def act (action : DesktopAction) (done : String) : Exec Value := do
  let answer : Option Unit ← ExceptT.lift (perform (.act action))
  desktop answer
  pure (textResult done)

/-- A tool that acts on the desktop: the mode is checked, then the arguments are read. -/
def actWith (mode : AccessMode) (action : Exec DesktopAction) (done : String) : Host Value :=
  flatten do
    ensureMutation mode
    let action ← action
    act action done

/-- Ask the desktop something. -/
def query (query : DesktopQuery) : Exec Value := do
  let answer : Option Value ← ExceptT.lift (perform (.query query))
  desktop answer

def clipboardWrite (args : Value) (mode : AccessMode) : Host Value :=
  actWith mode (do
    let text ← required "text" (strArg args "text")
    pure (.clipboardWrite text)) "copied to clipboard"

def doctor (env : Externals) : Host Value := flatten do
  let value ← query .doctor
  pure (jsonTextResult env value)

def listScreens (env : Externals) (_mode : AccessMode) : Host Value := flatten do
  let value ← query .listScreens
  pure (jsonTextResult env value)

def permissions (env : Externals) (args : Value) (mode : AccessMode) : Host Value := flatten do
  if strArg args "action" = some "grant" then do
    ensureMutation mode
    let value ← query .grantPermissions
    pure (jsonTextResult env value)
  else do
    let value : Value ← ExceptT.lift (perform .permissions)
    pure (jsonTextResult env value)

/-! ## Screenshots and observations -/

def captureImage (mode : ImageMode) (path : String) (retina : Bool) : Exec ImageCapture := do
  let answer : Option ImageCapture ← ExceptT.lift (perform (.image mode path retina))
  desktop answer

def screenCapture (env : Externals) (args : Value) (_mode : AccessMode) : Host Value := flatten do
  ensureScreenshotReferenceSupported env
  let target := (strArg args "target").getD "display"
  if ¬ (target = "display" ∨ target = "window") then throw .coordinatesUnavailable
  else do
    let artifact ← newArtifact env
    let capture ← captureImage (if target = "window" then .window else .screen) artifact.path true
    imageResult env [("target", .string target)] capture artifact.locator

def imageModeArg (env : Externals) (args : Value) : Exec ImageMode :=
  orFail .peekaboo (env.parseImageMode ((strArg args "mode").getD "screen"))

def image (env : Externals) (args : Value) (_mode : AccessMode) : Host Value := flatten do
  ensureScreenshotReferenceSupported env
  let artifact ← newArtifact env
  let retina := (boolArg args "retina").getD true
  let capture ← match strArg args "app" with
    | some app => do
      let answer : Option ImageCapture ← ExceptT.lift (perform (.imageApp app artifact.path retina))
      desktop answer
    | none => do
      let captureMode ← imageModeArg env args
      captureImage captureMode artifact.path retina
  imageResult env [("mode", capture.mode)] capture artifact.locator

def see (env : Externals) (args : Value) (_mode : AccessMode) : Host Value := flatten do
  ensureScreenshotReferenceSupported env
  let captureMode ← imageModeArg env args
  let artifact ← newArtifact env
  let retina := (boolArg args "retina").getD true
  let observation ← observeSemantic env
  let capture ← captureImage captureMode artifact.path retina
  imageResult env [("observation", observation.content), ("mode", capture.mode)] capture
    artifact.locator

def uiSnapshot (env : Externals) (_mode : AccessMode) : Host Value := flatten do
  let observation ← observeSemantic env
  pure (jsonTextResult env observation.content)

/-! ## Semantic actions -/

def ensureExactArgs (args : Value) (allowed : List String) : Exec Unit :=
  match args with
  | .object members =>
    if members.all fun member => member.1 ∈ allowed then pure () else throw .invalidArguments
  | _ => throw .invalidArguments

def isOperationIdByte (byte : UInt8) : Bool :=
  let ch := Char.ofNat byte.toNat
  (byte.toNat < 128 && ch.isAlphanum) || ch == '-' || ch == '_' || ch == ':'

def isDigitByte (byte : UInt8) : Bool := 48 ≤ byte.toNat && byte.toNat ≤ 57

def isLowerHexByte (byte : UInt8) : Bool :=
  isDigitByte byte || (97 ≤ byte.toNat && byte.toNat ≤ 102)

/-- The bytes of a text. -/
def bytesOf (s : String) : Bytes := Utf8.encode s.toList

def validOperationId (operationId : String) : Bool :=
  operationId ≠ "" && (bytesOf operationId).length ≤ 256 &&
    (bytesOf operationId).all isOperationIdByte

def validObservationId (observationId : String) : Bool :=
  (bytesOf observationId).length == 64 && (bytesOf observationId).all isLowerHexByte

def validTag (tag : String) : Bool :=
  match tag.toList with
  | 'e' :: index =>
    index ≠ [] && (Utf8.encode index).length ≤ 4 && (Utf8.encode index).all isDigitByte
  | _ => false

def validValue (value : String) : Bool := (bytesOf value).length ≤ 16 * 1024

def validInteractionMode (mode : String) : Bool := mode = "interactive" || mode = "background_only"

def clickFields : List String := ["operation_id", "observation_id", "tag", "interaction_mode"]

def setValueFields : List String :=
  ["operation_id", "observation_id", "tag", "value", "interaction_mode"]

def ensureSemanticArgs (args : Value) (setValue : Bool) : Exec Unit := do
  ensureExactArgs args (if setValue then setValueFields else clickFields)
  let operationId ← orFail .invalidArguments (strArg args "operation_id")
  let observationId ← orFail .invalidArguments (strArg args "observation_id")
  let tag ← orFail .invalidArguments (strArg args "tag")
  let valueValid := !setValue || (strArg args "value").any validValue
  let modeValid := (strArg args "interaction_mode").any validInteractionMode
  if validOperationId operationId && validObservationId observationId && validTag tag &&
      valueValid && modeValid then pure ()
  else throw .invalidArguments

def interactionModeArg (args : Value) : Exec InteractionMode :=
  match strArg args "interaction_mode" with
  | some mode =>
    if mode = "interactive" then pure .interactive
    else if mode = "background_only" then pure .backgroundOnly
    else throw .invalidArguments
  | none => throw .invalidArguments

def click (env : Externals) (args : Value) (mode : AccessMode) : Host Value := flatten do
  ensureMutation mode
  ensureSemanticArgs args false
  let operationId ← required "operation_id" (strArg args "operation_id")
  let observationId ← required "observation_id" (strArg args "observation_id")
  let tag ← required "tag" (strArg args "tag")
  let interactionMode ← interactionModeArg args
  executeClick env mode operationId observationId tag interactionMode

def setValue (env : Externals) (args : Value) (mode : AccessMode) : Host Value := flatten do
  ensureMutation mode
  ensureSemanticArgs args true
  let operationId ← required "operation_id" (strArg args "operation_id")
  let observationId ← required "observation_id" (strArg args "observation_id")
  let tag ← required "tag" (strArg args "tag")
  let value ← required "value" (strArg args "value")
  let interactionMode ← interactionModeArg args
  executeSetValue env mode operationId observationId tag value interactionMode

end ComputerUse
end FolkAround
