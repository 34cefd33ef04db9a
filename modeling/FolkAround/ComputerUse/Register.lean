import FolkAround.ComputerUse.Desktop

/-!
# The table of the tools

All tools are registered, with what the client is told of them, and then those that are
not offered are taken out: most of the tools that act on the desktop always, the
semantic ones unless the executor supports them.

* `allTools` — the tools in the order they are registered.
* `keep` — the tools that stay.
* `registerTools` — the table.
-/

namespace FolkAround
namespace ComputerUse

open Mcp (Tool ToolTable stringProperty numberProperty objectSchema emptySchema)

/-! ## Schemas -/

def boolProperty (description : String) : Value :=
  .object [("type", .string "boolean"), ("description", .string description)]

def strictSchema (fields : List (String × Value)) (required : List String) : Value :=
  match objectSchema fields required with
  | .object members => .object (members ++ [("additionalProperties", .bool false)])
  | value => value

def constrainedStringProperty (description : String) (minLength maxLength : UInt64)
    (pattern : String) : Value :=
  .object [("type", .string "string"), ("description", .string description),
    ("minLength", .number (.posInt minLength)), ("maxLength", .number (.posInt maxLength)),
    ("pattern", .string pattern)]

def interactionModeProperty : Value :=
  .object [("type", .string "string"),
    ("description", .string "Delivery mode: interactive or background_only"),
    ("enum", .array [.string "interactive", .string "background_only"])]

def operationIdProperty : Value :=
  constrainedStringProperty "Stable operation ID for durable at-most-once dispatch" 1 256
    "^[A-Za-z0-9_:-]+$"

def observationIdProperty : Value :=
  constrainedStringProperty "Observation ID from folk_ui_snapshot" 64 64 "^[0-9a-f]\x7b64\x7d$"

def tagProperty : Value :=
  constrainedStringProperty "Opaque element tag from folk_ui_snapshot" 2 5 "^e[0-9]\x7b1,4\x7d$"

/-! ## The tools -/

/-- A tool whose handler answers in any case. -/
def tool (name description : String) (inputSchema : Value)
    (handler : Value → AccessMode → Host Value) : Tool Host :=
  ⟨name, description, inputSchema, fun args mode => do
    let value ← handler args mode
    pure (.ok value)⟩

/-- The tools that start processes, look at the screen, or touch the clipboard. -/
def hostTools (env : Externals) : List (Tool Host) :=
  [tool "folk_shell"
      "Run a shell command on the Folk Around host computer, not on the agent provider or remote model server"
      (objectSchema
        [("command", stringProperty "Shell command to execute on the Folk Around host computer"),
          ("cwd", stringProperty "Working directory on the Folk Around host computer")]
        ["command"])
      shell,
    tool "folk_system_info" "Return OS and CPU details for the Folk Around host computer"
      emptySchema fun _ _ => systemInfo env,
    tool "folk_list_apps" "List running processes on the Folk Around host computer"
      emptySchema fun _ mode => listApps mode,
    tool "folk_spawn" "Spawn a background process on the Folk Around host computer in full mode"
      (objectSchema
        [("command", stringProperty "Background command to spawn on the Folk Around host computer")]
        ["command"])
      spawnCommand,
    tool "folk_image" "Capture an image from the Folk Around host computer"
      (objectSchema
        [("mode", stringProperty "Capture mode: screen or window"),
          ("retina", boolProperty "Capture at retina scale"),
          ("app", stringProperty "Optional app name for window-scoped capture")]
        [])
      (image env),
    tool "folk_see"
      "Capture an image and Praefectus semantic observation for the Folk Around host computer"
      (objectSchema
        [("mode", stringProperty "Capture mode: screen or window"),
          ("retina", boolProperty "Capture at retina scale")]
        [])
      (see env),
    tool "folk_list_screens" "List display information for the Folk Around host computer"
      emptySchema fun _ mode => listScreens env mode,
    tool "folk_clipboard_read" "Read the Folk Around host computer clipboard"
      emptySchema fun _ _ => clipboardRead,
    tool "folk_clipboard_write" "Write text to the Folk Around host computer clipboard"
      (objectSchema
        [("text", stringProperty "Text to copy to the Folk Around host computer clipboard")]
        ["text"])
      clipboardWrite,
    tool "folk_permissions"
      "Probe or grant screen recording, accessibility, and clipboard access on the Folk Around host computer"
      (objectSchema [("action", stringProperty "Optional action: grant")] [])
      (permissions env),
    tool "folk_doctor" "Health report for computer-use readiness on the Folk Around host computer"
      emptySchema fun _ _ => doctor env,
    tool "folk_screen_capture" "Capture the Folk Around host computer screen and return image metadata"
      (objectSchema [("target", stringProperty "Capture target: display or window")] [])
      (screenCapture env)]

/-- The tools for what was observed. -/
def semanticTools (env : Externals) : List (Tool Host) :=
  [tool "folk_ui_snapshot"
      "Return a Praefectus semantic observation with opaque element tags for the Folk Around host computer"
      emptySchema fun _ mode => uiSnapshot env mode,
    tool "folk_click" "Invoke a Praefectus semantic element on the Folk Around host computer"
      (strictSchema
        [("operation_id", operationIdProperty), ("observation_id", observationIdProperty),
          ("tag", tagProperty), ("interaction_mode", interactionModeProperty)]
        ["operation_id", "observation_id", "tag", "interaction_mode"])
      (click env)]

/-- The tools for keyboard and pointer. -/
def inputTools (env : Externals) : List (Tool Host) :=
  [tool "folk_press" "Press a named key on the Folk Around host computer"
      (objectSchema
        [("key", stringProperty "Key name such as return, tab, space, or arrows"),
          ("count", numberProperty "Repeat count"),
          ("delay_ms", numberProperty "Delay between repeats in milliseconds")]
        ["key"])
      (press env),
    tool "folk_type" "Type text on the Folk Around host computer"
      (objectSchema
        [("text", stringProperty "Text to type"),
          ("clear", boolProperty "Clear the current field first"),
          ("return", boolProperty "Press return after typing"),
          ("delay_ms", numberProperty "Delay between characters in milliseconds")]
        ["text"])
      typeText,
    tool "folk_paste" "Paste text into the active UI on the Folk Around host computer"
      (objectSchema [("text", stringProperty "Text to paste")] ["text"])
      paste,
    tool "folk_hotkey" "Press a hotkey on the Folk Around host computer"
      (objectSchema [("keys", stringProperty "Hotkey keys joined by plus signs")] ["keys"])
      hotkey,
    tool "folk_scroll" "Scroll on the Folk Around host computer"
      (objectSchema
        [("dx", numberProperty "Horizontal scroll amount"),
          ("dy", numberProperty "Vertical scroll amount")]
        [])
      (scroll env),
    tool "folk_swipe" "Unavailable until Praefectus supports artifact-bound coordinate endpoints"
      (objectSchema
        [("from", stringProperty "Start coordinate as x,y"),
          ("to", stringProperty "End coordinate as x,y"),
          ("duration_ms", numberProperty "Swipe duration in milliseconds")]
        ["from", "to"])
      swipe,
    tool "folk_drag" "Unavailable until Praefectus supports artifact-bound coordinate endpoints"
      (objectSchema
        [("from", stringProperty "Start coordinate as x,y"),
          ("to", stringProperty "End coordinate as x,y"),
          ("duration_ms", numberProperty "Drag duration in milliseconds")]
        ["from", "to"])
      drag,
    tool "folk_move"
      "Move the pointer to a resolved UI element on the Folk Around host computer; raw coordinates require Praefectus artifact provenance"
      (objectSchema
        [("element_id", stringProperty "Stable element ID from folk_ui_snapshot"),
          ("snapshot", stringProperty "Optional snapshot id from folk_ui_snapshot"),
          ("x", numberProperty "Screen x coordinate"),
          ("y", numberProperty "Screen y coordinate")]
        [])
      (movePointer env),
    tool "folk_set_value"
      "Set the value of an editable Praefectus semantic element on the Folk Around host computer"
      (strictSchema
        [("operation_id", operationIdProperty), ("observation_id", observationIdProperty),
          ("tag", tagProperty),
          ("value", constrainedStringProperty "Value to set" 0 (16 * 1024) "^[\\s\\S]*$"),
          ("interaction_mode", interactionModeProperty)]
        ["operation_id", "observation_id", "tag", "value", "interaction_mode"])
      (setValue env),
    tool "folk_perform_action"
      "Perform an accessibility action on a resolved UI element on the Folk Around host computer"
      (objectSchema
        [("on", stringProperty "Stable element ID or label from folk_ui_snapshot"),
          ("action", stringProperty "Accessibility action to perform"),
          ("snapshot", stringProperty "Optional snapshot id from folk_ui_snapshot")]
        ["on", "action"])
      performAction]

/-- The tools for windows, applications and menus, and the rest. -/
def desktopTools (env : Externals) : List (Tool Host) :=
  [tool "folk_window"
      "List, focus, move, resize, minimize, close, or set bounds of windows on the Folk Around host computer"
      (objectSchema
        [("action", stringProperty
            "Window action: list, focus, close, minimize, move, resize, set-bounds"),
          ("app", stringProperty "Application name"),
          ("title", stringProperty "Window title"),
          ("x", numberProperty "Window x coordinate"),
          ("y", numberProperty "Window y coordinate"),
          ("width", numberProperty "Window width"),
          ("height", numberProperty "Window height")]
        ["action"])
      (window env),
    tool "folk_app"
      "List, launch, activate, switch, hide, unhide, or quit apps on the Folk Around host computer"
      (objectSchema
        [("action", stringProperty
            "App action: list, launch, activate, switch, hide, unhide, quit"),
          ("app", stringProperty "Application name")]
        ["action"])
      app,
    tool "folk_open" "Open a path or URL on the Folk Around host computer"
      (objectSchema
        [("target", stringProperty "Path or URL to open"),
          ("app", stringProperty "Optional app to open with"),
          ("no_focus", boolProperty "Open without focusing the target app")]
        ["target"])
      openTarget,
    tool "folk_menu" "Inspect or click menu items on the Folk Around host computer"
      (objectSchema
        [("action", stringProperty "Menu action: list, list-all, inspect, or click"),
          ("app", stringProperty "Application name"),
          ("menu", stringProperty "Menu name"),
          ("item", stringProperty "Menu item name")]
        ["action"])
      (menu env),
    tool "folk_sleep" "Sleep for a number of seconds on the Folk Around host computer"
      (objectSchema [("seconds", numberProperty "Sleep duration in seconds")] ["seconds"])
      fun args _ => sleep env args,
    tool "folk_clean" "Remove cached snapshots on the Folk Around host computer"
      (objectSchema
        [("all_snapshots", boolProperty "Remove all cached snapshots"),
          ("snapshot", stringProperty "Remove a specific snapshot id")]
        [])
      (clean env)]

def allTools (env : Externals) : List (Tool Host) :=
  hostTools env ++ semanticTools env ++ inputTools env ++ desktopTools env

/-- The tools that are never offered. -/
def withheld : List String :=
  ["folk_press", "folk_type", "folk_paste", "folk_hotkey", "folk_scroll", "folk_swipe",
    "folk_drag", "folk_move", "folk_perform_action", "folk_window", "folk_app", "folk_open",
    "folk_menu", "folk_sleep", "folk_clean", "folk_doctor"]

def keep (semanticClick semanticSetValue : Bool) (name : String) : Bool :=
  let semanticObservation := semanticClick || semanticSetValue
  if name = "folk_ui_snapshot" ∨ name = "folk_see" then semanticObservation
  else if name = "folk_click" then semanticClick
  else if name = "folk_set_value" then semanticSetValue
  else name ∉ withheld

def registerTools (env : Externals) (table : ToolTable Host) (semanticClick semanticSetValue : Bool) :
    ToolTable Host :=
  ((allTools env).foldl ToolTable.register table).retain fun tool =>
    keep semanticClick semanticSetValue tool.name

theorem foldl_register (tools : List (Tool Host)) (table : ToolTable Host) :
    tools.foldl ToolTable.register table = { table with tools := table.tools ++ tools } := by
  induction tools generalizing table with
  | nil => simp
  | cons tool rest ih => simp [ih, ToolTable.register]

/-- A tool is offered if it was registered and is kept. -/
theorem mem_registerTools {env : Externals} {mode : AccessMode} {click set : Bool}
    {tool : Tool Host} :
    tool ∈ (registerTools env (ToolTable.new Host mode) click set).tools ↔
      tool ∈ allTools env ∧ keep click set tool.name = true := by
  rw [registerTools, foldl_register, ToolTable.retain, List.mem_filter, ToolTable.new,
    List.nil_append]

end ComputerUse
end FolkAround
