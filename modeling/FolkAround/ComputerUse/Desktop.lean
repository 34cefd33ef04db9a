import FolkAround.ComputerUse.Tools

/-!
# The handlers that act on the desktop

Keyboard, pointer, windows, applications and menus.  Their tools are described in the
table and taken out of it again, so none of them can be called.
-/

namespace FolkAround
namespace ComputerUse

open Mcp (textResult)

/-! ## Keyboard and pointer -/

def typeText (args : Value) (mode : AccessMode) : Host Value :=
  actWith mode (do
    let text ← required "text" (strArg args "text")
    let clear := (boolArg args "clear").getD false
    let pressReturn := (boolArg args "return").getD false
    pure (.typeText text clear pressReturn (u64Arg args "delay_ms") (strArg args "app"))) "typed"

def press (env : Externals) (args : Value) (mode : AccessMode) : Host Value :=
  actWith mode (do
    let key ← required "key" (strArg args "key")
    let count := countU32 ((intArg env args "count").getD 1)
    pure (.press key count (u64Arg args "delay_ms"))) "pressed"

def paste (args : Value) (mode : AccessMode) : Host Value :=
  actWith mode (do
    let text ← required "text" (strArg args "text")
    pure (.paste text)) "pasted"

def hotkey (args : Value) (mode : AccessMode) : Host Value :=
  actWith mode (do
    let keys ← required "keys" (strArg args "keys")
    let parts := (keys.toList.splitOn '+').map fun part => String.ofList (Text.trim part)
    pure (.hotkey parts)) "hotkey pressed"

def scrollArgs (dx dy : Int) : Direction × Nat :=
  if dx ≠ 0 then (if dx < 0 then .left else .right, countU32 dx.natAbs)
  else (if dy < 0 then .down else .up, countU32 dy.natAbs)

def scroll (env : Externals) (args : Value) (mode : AccessMode) : Host Value :=
  actWith mode (do
    let (direction, amount) :=
      scrollArgs ((intArg env args "dx").getD 0) ((intArg env args "dy").getD 0)
    pure (.scroll direction amount)) "scrolled"

/-- Coordinates are not supported. -/
def swipe (_args : Value) (mode : AccessMode) : Host Value := flatten do
  ensureMutation mode
  throw .coordinatesUnavailable

def drag (_args : Value) (mode : AccessMode) : Host Value := flatten do
  ensureMutation mode
  throw .coordinatesUnavailable

def pointArg (env : Externals) (args : Value) : Exec Point := do
  let x ← required "x" (intArg env args "x")
  let y ← required "y" (intArg env args "y")
  pure ⟨x, y⟩

def movePointer (env : Externals) (args : Value) (mode : AccessMode) : Host Value := flatten do
  ensureMutation mode
  match strArg args "element_id" with
  | some elementId => act (.moveCursor (.query elementId (strArg args "snapshot"))) "moved"
  | none => do
    let point ← pointArg env args
    match ← executeMove mode point.x point.y with
    | some response => pure response
    | none => do
      let point ← pointArg env args
      act (.moveCursor (.point point)) "moved"

def performAction (args : Value) (mode : AccessMode) : Host Value :=
  actWith mode (do
    let on ← required "on" (strArg args "on")
    let action ← required "action" (strArg args "action")
    pure (.performAction (.query on (strArg args "snapshot")) action)) "action performed"

def openTarget (args : Value) (mode : AccessMode) : Host Value :=
  actWith mode (do
    let target ← required "target" (strArg args "target")
    let noFocus := (boolArg args "no_focus").getD false
    pure (.openTarget target (strArg args "app") noFocus)) "opened"

/-! ## Waiting and cleaning -/

def sleep (env : Externals) (args : Value) : Host Value := do
  let millis := match args.get "seconds" with
    | some (.number n) => env.millis n
    | _ => 0
  let _done : Unit ← perform (.sleep millis)
  pure (jsonTextResult env
    (.object [("slept_ms", .number (.posInt (UInt64.ofNat millis)))]))

def clean (env : Externals) (args : Value) (mode : AccessMode) : Host Value := flatten do
  ensureMutation mode
  let all := (boolArg args "all_snapshots").getD false
  let answer : Option Nat ←
    ExceptT.lift (perform (.cleanSnapshots all (strArg args "snapshot")))
  let removed ← desktop answer
  pure (jsonTextResult env (.object [("removed", .number (.posInt (UInt64.ofNat removed)))]))

/-! ## Windows, applications, menus -/

def ensureSafeFocusOrFull (mode : AccessMode) (action : String) : Exec Unit :=
  if action ∈ ["list", "focus", "activate"] then pure () else ensureMutation mode

def windowBounds (env : Externals) (action : String) (args : Value) : Exec Bounds :=
  if action = "move" then do
    let point ← pointArg env args
    pure ⟨point.x, point.y, 0, 0⟩
  else if action = "resize" then do
    let width ← required "width" (intArg env args "width")
    let height ← required "height" (intArg env args "height")
    pure ⟨0, 0, width, height⟩
  else if action = "set-bounds" then do
    let point ← pointArg env args
    let width ← required "width" (intArg env args "width")
    let height ← required "height" (intArg env args "height")
    pure ⟨point.x, point.y, width, height⟩
  else throw (.missing "action")

def window (env : Externals) (args : Value) (mode : AccessMode) : Host Value :=
  let action := (strArg args "action").getD ""
  flatten do
    if action = "list" then do
      let value ← query (.window "list" none none)
      pure (jsonTextResult env value)
    else do
      if action ∈ ["focus", "close", "minimize"] then ensureSafeFocusOrFull mode action
      else ensureMutation mode
      let app ← required "app" (strArg args "app")
      if action ∈ ["focus", "close", "minimize"] then do
        let _done ← query (.window action (some app) none)
        pure (textResult "window action complete")
      else if action ∈ ["move", "resize", "set-bounds"] then do
        let bounds ← windowBounds env action args
        let _done ← query (.window action (some app) (some bounds))
        pure (textResult "window action complete")
      else throw (.missing "action")

def app (args : Value) (mode : AccessMode) : Host Value :=
  let action := (strArg args "action").getD ""
  if action = "list" then listApps mode
  else flatten do
    if action ∈ ["list", "activate", "focus", "switch"] then ensureSafeFocusOrFull mode action
    else ensureMutation mode
    let app ← required "app" (strArg args "app")
    if action ∈ ["launch", "activate", "switch", "hide", "unhide", "quit"] then do
      let _done ← query (.app action app)
      pure (textResult "app action complete")
    else throw (.missing "action")

def menu (env : Externals) (args : Value) (mode : AccessMode) : Host Value := flatten do
  let action ← required "action" (strArg args "action")
  let app ← required "app" (strArg args "app")
  if action ∈ ["list", "list-all", "inspect"] then do
    let value ← query (.menu (if action = "inspect" then "list" else action) app none none)
    pure (jsonTextResult env value)
  else do
    ensureMutation mode
    let menu ← required "menu" (strArg args "menu")
    let item ← required "item" (strArg args "item")
    let _done ← query (.menu "click" app (some menu) (some item))
    pure (textResult "menu action complete")

end ComputerUse
end FolkAround
