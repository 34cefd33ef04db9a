import Mathlib.Algebra.Group.Int.Defs
import FolkAround.ComputerUse.Host
import FolkAround.Mcp

/-!
# Semantic actions

Acting on what was observed: an observation is kept under its name, and an action is
aimed at a tag of it.

* `cacheObservation`, `cachedTarget` — the observations that are kept.
* `observeSemantic` — make an observation and keep it.
* `executeClick`, `executeSetValue` — act, in full mode.
-/

namespace FolkAround
namespace ComputerUse

def maxCachedObservations : Nat := 8

def actionDeadlineMs : Int := 30000

/-- Only full mode may change anything. -/
def ensureMutation (mode : AccessMode) : Exec Unit :=
  if mode ≠ .full then throw .blocked else pure ()

/-! ## Observations -/

def nowMs : Exec Int := do
  let now ← ExceptT.lift (perform .now)
  orFail .io now

/-- The observations, when no thread has panicked over them. -/
def lockObservations : Exec Observations := do
  let locked : Bool ← ExceptT.lift (perform .lockObservations)
  if locked then ExceptT.lift get else throw .semanticUnavailable

/-- Keep an observation: drop those that have expired and an older one of its name, and
no more than there is room for. -/
def insertObservation (observations : Observations) (observation : Observation) (now : Int) :
    Observations :=
  let kept := observations.filter fun cached =>
    now < cached.expiresAtMs ∧ cached.observationId ≠ observation.observationId
  let all := kept ++ [observation]
  all.drop (all.length - maxCachedObservations)

def cacheObservation (env : Externals) (observation : Observation) : Exec Unit := do
  let now ← nowMs
  ofExcept (env.validate observation now)
  let observations ← lockObservations
  let now ← nowMs
  ExceptT.lift (set (insertObservation observations observation now))

def cachedTarget (env : Externals) (observationId tag : String) : Exec (SemanticTarget × Int) := do
  let observations ← lockObservations
  let observation ← orFail .semanticUnavailable
    (observations.find? fun observation => observation.observationId = observationId)
  let now ← nowMs
  ofExcept (env.validate observation now)
  let target ← ofExcept (env.target observation tag)
  pure (target, observation.expiresAtMs)

/-- `i64::MAX` -/
def i64Max : Int := 2 ^ 63 - 1

def observeSemantic (env : Externals) : Exec Observation := do
  let now ← nowMs
  let observed ← ExceptT.lift (perform (.semantic (.observe (min i64Max (now + actionDeadlineMs)))))
  let observation ← ofExcept observed
  cacheObservation env observation
  pure observation

/-! ## Actions -/

def Action.name : Action → String
  | .invoke => "invoke"
  | .setValue _ => "set_value"

def supportsAction (capabilities : List String) (action : String) : Bool :=
  action ≠ "" ∧ action ∈ capabilities

def Terminal.provesNoEffect : Terminal → Bool
  | .rejected | .cancelledBeforeEffect | .expiredBeforeEffect => true
  | .other => false

def ExecuteReport.isRetrySafe (report : ExecuteReport) : Bool :=
  report.terminals ≠ [] ∧ report.terminals.all Terminal.provesNoEffect

def reportResult (env : Externals) (report : ExecuteReport) : Value :=
  Mcp.textResult (env.toText (.object [("report", report.content),
    ("retry_safe", .bool report.isRetrySafe)]))

def executeSemantic (env : Externals) (action : Action) (target : SemanticTarget)
    (operationId : String) (deadlineAtMs : Int) (interactionMode : InteractionMode) :
    Exec Value := do
  let capabilities ← ExceptT.lift (perform (.semantic .capabilities))
  let capabilities ← ofExcept capabilities
  if supportsAction capabilities action.name then do
    let report ← ExceptT.lift
      (perform (.semantic (.execute action target operationId deadlineAtMs interactionMode)))
    let report ← ofExcept report
    pure (reportResult env report)
  else throw .semanticUnavailable

def executeClick (env : Externals) (mode : AccessMode) (operationId observationId tag : String)
    (interactionMode : InteractionMode) : Exec Value := do
  ensureMutation mode
  let (target, deadlineAtMs) ← cachedTarget env observationId tag
  executeSemantic env .invoke target operationId deadlineAtMs interactionMode

def executeSetValue (env : Externals) (mode : AccessMode)
    (operationId observationId tag value : String) (interactionMode : InteractionMode) :
    Exec Value := do
  ensureMutation mode
  let (target, deadlineAtMs) ← cachedTarget env observationId tag
  executeSemantic env (.setValue value) target operationId deadlineAtMs interactionMode

/-- Moving the pointer to a raw coordinate is not supported, in any mode. -/
def executeMove (mode : AccessMode) (_x _y : Int) : Exec (Option Value) := do
  ensureMutation mode
  throw .coordinatesUnavailable

end ComputerUse
end FolkAround
