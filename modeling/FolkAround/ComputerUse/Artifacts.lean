import FolkAround.Core.Files
import FolkAround.ComputerUse.Host

/-!
# Artifacts

Screenshots are kept in files that only their owner can read, and answered by reference.

* `createArtifactFile` — an empty file under a name nobody else has.
* `screenshotReference` — the hash and the type of a screenshot, when it is safe.
* `imageResult` — the answer with such a reference.
* `Quiet` — the effects that neither create nor remove a file.
-/

namespace FolkAround
namespace ComputerUse

def maxScreenshotBytes : Nat := 64 * 1024 * 1024

def artifactIdBytes : Nat := 16

structure ArtifactFile where
  path : String
  locator : String

abbrev ConfigExec := ExceptT ConfigError Host

/-! ## Files of one's own -/

def configDir : ConfigExec String := do
  let home : Option String ← ExceptT.lift (perform (.var "HOME"))
  match home with
  | none => throw .homeMissing
  | some home => pure (joinPath (joinPath home ".config") "folk-around")

/-- A file operation, whose failure is one of the configuration. -/
def fileStep (op : FileOp) : ConfigExec Unit := do
  let answer : Except FileError Unit ← ExceptT.lift (perform (.file op))
  match answer with
  | .ok () => pure ()
  | .error _ => throw .io

def ensurePrivateDir (path : String) : ConfigExec Unit := do
  fileStep (.createDirAll path)
  fileStep (.setPermissions path 0o700)

def generateHex (count : Nat) : Host String := do
  let bytes : Fin count → UInt8 ← perform (.random count)
  pure (String.ofList ((List.ofFn bytes).flatMap hexByte))

/-- Try so many names for a new file. -/
def createArtifactIn (dir : String) : Nat → ConfigExec ArtifactFile
  | 0 => throw .io
  | tries + 1 => do
    let id ← ExceptT.lift (generateHex artifactIdBytes)
    let name := id ++ ".png"
    let path := joinPath dir name
    let opened : Except FileError Unit ← ExceptT.lift (perform (.file (.openNew path 0o600)))
    match opened with
    | .ok () => do
      fileStep (.syncAll path)
      fileStep (.openFile dir)
      fileStep (.syncAll dir)
      pure ⟨path, "folk-artifact:" ++ name⟩
    | .error .alreadyExists => createArtifactIn dir tries
    | .error .other => throw .io

def createArtifactFile (env : Externals) : ConfigExec ArtifactFile :=
  if env.unix then do
    let config ← configDir
    ensurePrivateDir config
    let dir := joinPath config "artifacts"
    ensurePrivateDir dir
    createArtifactIn dir 16
  else throw .privatePermissionsUnavailable

/-- Effects of the host that only look, or see to directories and permissions: they
neither create nor remove a file. -/
def Quiet : Effect → Prop
  | .var _ | .now | .random _ | .metadata _ | .readFile _ | .lockObservations => True
  | .file (.createDirAll _) | .file (.setPermissions ..) | .file (.openFile _) => True
  | .file (.syncAll _) => True
  | .semantic (.observe _) => True
  | _ => False

/-! ## References to screenshots -/

def screenshotReference (env : Externals) (capture : ImageCapture) :
    Exec (List (String × Value)) :=
  if env.unix then do
    let opened : Except FileError Unit ← ExceptT.lift (perform (.file (.openFile capture.path)))
    fileOk opened
    let metadata : Except FileError FileMetadata ← ExceptT.lift (perform (.metadata capture.path))
    let metadata ← fileOk metadata
    if metadata.isFile = false ∨ maxScreenshotBytes < metadata.len then
      throw .screenshotReferenceUnavailable
    else do
      let restricted : Except FileError Unit ←
        ExceptT.lift (perform (.file (.setPermissions capture.path 0o600)))
      fileOk restricted
      let metadata : Except FileError FileMetadata ← ExceptT.lift (perform (.metadata capture.path))
      let metadata ← fileOk metadata
      if metadata.mode &&& 0o077 ≠ 0 then throw .screenshotReferenceUnavailable
      else do
        let contents : Except FileError Bytes ← ExceptT.lift (perform (.readFile capture.path))
        let contents ← fileOk contents
        if maxScreenshotBytes < contents.length then throw .screenshotReferenceUnavailable
        else pure [("contentHash", .string ("sha256:" ++ env.sha256Hex contents)),
          ("mimeType", .string capture.mimeType)]
  else throw .screenshotReferenceUnavailable

def imageResult (env : Externals) (metadata : List (String × Value)) (capture : ImageCapture)
    (locator : String) : Exec Value :=
  if capture.ephemeral then do
    -- whether the capture could be removed makes no difference
    let _removed : Except FileError Unit ←
      ExceptT.lift (perform (.file (.removeFile capture.path)))
    throw .screenshotReferenceUnavailable
  else do
    let reference ← screenshotReference env capture
    let value := Value.object (metadata ++
      [("artifact", .object (reference ++ [("locator", .string locator)]))])
    pure (.object [
      ("content", .array [.object [("type", .string "text"), ("text", .string (env.toTextPretty value))]]),
      ("structuredContent", value)])

def ensureScreenshotReferenceSupported (env : Externals) : Exec Unit :=
  if env.unix then pure () else throw .screenshotReferenceUnavailable

/-- A new artifact file, or no screenshot. -/
def newArtifact (env : Externals) : Exec ArtifactFile :=
  ExceptT.adapt (fun _ => ToolExecError.screenshotReferenceUnavailable) (createArtifactFile env)

end ComputerUse
end FolkAround
