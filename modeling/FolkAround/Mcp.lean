import FolkAround.Core
import FolkAround.Json

/-!
# The tool protocol

Messages are JSON-RPC requests to a table of tools.  What the tools and the server do
on the host is left to a monad `m`.

* `Tool`, `ToolTable` — the tools, in the order they were registered.
* `textResult`, `errResult`, `objectSchema` and their like — the values tools are
  described and answer with.
* `ServerHost` — what the server itself does on the host: log lines, and looking up the
  name of the machine.
* `handleMessage` — one message.  The response is given as a value; printing a value
  does not fail.
-/

namespace FolkAround
namespace Mcp

variable {m : Type → Type} [Monad m]

/-! ## Tools -/

/-- A tool; a failed handler has a text. -/
structure Tool (m : Type → Type) where
  name : String
  description : String
  inputSchema : Value
  handler : Value → AccessMode → m (Except String Value)

structure ToolTable (m : Type → Type) where
  mode : AccessMode
  tools : List (Tool m)

def ToolTable.new (m : Type → Type) (mode : AccessMode) : ToolTable m := ⟨mode, []⟩

def ToolTable.register (table : ToolTable m) (tool : Tool m) : ToolTable m :=
  { table with tools := table.tools ++ [tool] }

def ToolTable.retain (table : ToolTable m) (keep : Tool m → Bool) : ToolTable m :=
  { table with tools := table.tools.filter keep }

/-! ## Values -/

def textResult (text : String) : Value :=
  .object [("content", .array [.object [("type", .string "text"), ("text", .string text)]])]

def errResult (text : String) : Value :=
  match textResult text with
  | .object members => .object (members ++ [("isError", .bool true)])
  | value => value

def objectSchema (properties : List (String × Value)) (required : List String) : Value :=
  let schema := [("type", .string "object"), ("properties", .object properties)]
  if required = [] then .object schema
  else .object (schema ++ [("required", .array (required.map .string))])

def stringProperty (description : String) : Value :=
  .object [("type", .string "string"), ("description", .string description)]

def numberProperty (description : String) : Value :=
  .object [("type", .string "number"), ("description", .string description)]

def emptySchema : Value := .object [("type", .string "object"), ("properties", .object [])]

/-- The first tool of that name is run, with the mode of the table. -/
def ToolTable.call (table : ToolTable m) (name : String) (arguments : Value) : m Value :=
  match table.tools.find? fun tool => tool.name = name with
  | none => pure (errResult "not found")
  | some tool => do
    match ← tool.handler arguments table.mode with
    | .ok value => pure value
    | .error err => pure (errResult err)

/-! ## Responses -/

def jsonResponse (id result : Value) : Value :=
  .object [("jsonrpc", .string "2.0"), ("id", id), ("result", result)]

def errorResponse (id : Value) (code : Int64) (message : String) : Value :=
  .object [("jsonrpc", .string "2.0"), ("id", id),
    ("error", .object [("code", .number (.negInt code)), ("message", .string message)])]

/-! ## The server -/

/-- What the server does on the host by itself. -/
structure ServerHost (m : Type → Type) where
  log : String → m Unit
  /-- A variable of the environment. -/
  var : String → m (Option String)
  /-- The standard output of the program `hostname`, if it runs. -/
  hostname : m (Option (List UInt8))

/-- The name of the machine, made fit for a name on the network. -/
def hostSuffix (raw : List Char) : List Char :=
  (((Text.toAsciiLowercase (Text.trim raw)).map fun ch => if ch.isAlphanum then ch else '-').dropWhile
    (· = '-')).rdropWhile (· = '-')

def integrationName (server : ServerHost m) (base : String) : m String := do
  let name ← match ← server.var "COMPUTERNAME" with
    | some value => pure (some value)
    | none => server.var "HOSTNAME"
  let raw ← match name.filter fun value => Text.trim value.toList ≠ [] with
    | some value => pure value.toList
    | none => do
      let output ← server.hostname
      pure ((output.bind Utf8.fromUtf8).getD [])
  let suffix := hostSuffix raw
  if suffix = [] then pure base
  else pure (base ++ "-" ++ String.ofList suffix)

/-- The version of the package. -/
def version : String := "0.3.6"

def initializeResult (name : String) : Value :=
  .object [("protocolVersion", .string "2024-11-05"),
    ("capabilities", .object [("tools", .object [("listChanged", .bool false)])]),
    ("serverInfo", .object [("name", .string name), ("version", .string version)])]

def listResult (table : ToolTable m) : Value :=
  .object [("tools", .array (table.tools.map fun tool => .object [("name", .string tool.name),
    ("description", .string tool.description), ("inputSchema", tool.inputSchema)]))]

def logIf (server : ServerHost m) (verbose : Bool) (text : String) : m Unit :=
  if verbose then server.log text else pure ()

/-- The response to a call of a tool. -/
def callResponse (server : ServerHost m) (verbose : Bool) (table : ToolTable m) (id msg : Value) :
    m Value :=
  match msg.get "params" with
  | some (.object params) =>
    match (Value.object params).get "name" with
    | some (.string name) => do
      let arguments := ((Value.object params).get "arguments").getD (.object [])
      logIf server verbose "tool started"
      let result ← table.call name arguments
      logIf server verbose "tool finished"
      pure (jsonResponse id result)
    | _ => pure (errorResponse id (-32602) "Missing name")
  | _ => pure (errorResponse id (-32602) "Missing params")

/-- A message without an id is a notification. -/
def isNotification : Option Value → Bool
  | none => true
  | some .null => true
  | some _ => false

def handleMessage (server : ServerHost m) (verbose : Bool) (table : ToolTable m) (msg : Value) :
    m (Option Value) :=
  match msg, msg.get "method" with
  | .object _, some (.string method) => do
    let id := msg.get "id"
    logIf server verbose ("<- " ++ method)
    if method = "initialize" then
      if isNotification id then pure none
      else do
        let name ← integrationName server "folk-around"
        pure (some (jsonResponse (id.getD .null) (initializeResult name)))
    else if method = "notifications/initialized" then pure none
    else if method = "ping" then
      if isNotification id then pure none
      else pure (some (jsonResponse (id.getD .null) (.object [])))
    else if method = "tools/list" then
      if isNotification id then pure none
      else pure (some (jsonResponse (id.getD .null) (listResult table)))
    else if method = "tools/call" then
      if isNotification id then pure none
      else do
        let response ← callResponse server verbose table (id.getD .null) msg
        pure (some response)
    else
      if isNotification id then pure none
      else pure (some (errorResponse (id.getD .null) (-32601) method))
  | _, _ => pure none

end Mcp
end FolkAround
