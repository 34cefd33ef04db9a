import FolkAround.Lib.Effects
import FolkAround.Mcp

/-!
# Dispatch

What becomes of a message, for every table of tools: whether it is answered, with what,
and which handler it runs.

* `HandlerRun`, `watch` — a table whose handlers put every run of theirs on record.
* `Request` — a message that has to be answered; `toolCall` — the tool it calls.
* `Response` — the shape of an answer.
* `dispatch` — the law, over all runs of the handlers and whatever they do.
-/

namespace FolkAround
namespace Mcp

open Effects

variable {E : Type} {R : E → Type}

/-! ## Handlers on record -/

/-- A run of a handler: its place in the table, what it was given, and its result. -/
structure HandlerRun where
  index : Nat
  arguments : Value
  mode : AccessMode
  result : Except String Value

/-- Programs that keep a record of the handlers they ran. -/
abbrev Watched (E : Type) (R : E → Type) := StateT (List HandlerRun) (Prog E R)

def watchHandler (index : Nat) (handler : Value → AccessMode → Prog E R (Except String Value))
    (arguments : Value) (mode : AccessMode) : Watched E R (Except String Value) := do
  let result ← StateT.lift (handler arguments mode)
  modify fun runs => runs ++ [⟨index, arguments, mode, result⟩]
  pure result

def watchTool (index : Nat) (tool : Tool (Prog E R)) : Tool (Watched E R) :=
  ⟨tool.name, tool.description, tool.inputSchema, watchHandler index tool.handler⟩

def watch (table : ToolTable (Prog E R)) : ToolTable (Watched E R) :=
  ⟨table.mode, table.tools.mapIdx watchTool⟩

def watchServer (server : ServerHost (Prog E R)) : ServerHost (Watched E R) where
  log text := StateT.lift (server.log text)
  var name := StateT.lift (server.var name)
  hostname := StateT.lift server.hostname

/-! ## Requests and responses -/

/-- A message that has to be answered, with its method and its id. -/
structure Request (msg : Value) (method : String) (id : Value) : Prop where
  hasMethod : msg.get "method" = some (.string method)
  hasId : msg.get "id" = some id
  notNull : id ≠ .null
  notInitialized : method ≠ "notifications/initialized"

/-- The tool a message calls, and the arguments. -/
def toolCall (msg : Value) : Option (String × Value) :=
  match msg.get "method", msg.get "params" with
  | some (.string "tools/call"), some (.object params) =>
    match (Value.object params).get "name" with
    | some (.string name) =>
      some (name, ((Value.object params).get "arguments").getD (.object []))
    | _ => none
  | _, _ => none

/-- The shape of a response. -/
structure Response (id response : Value) : Prop where
  jsonrpc : response.get "jsonrpc" = some (.string "2.0")
  id : response.get "id" = some id
  /-- It has a result or an error. -/
  one : ((response.get "result").isSome ∧ response.get "error" = none) ∨
    (response.get "result" = none ∧ (response.get "error").isSome)

/-- What a handler returned, as the result of the response. -/
def handlerResult : Except String Value → Value
  | .ok value => value
  | .error err => errResult err

/-- The first tool of that name stands at that place. -/
structure FirstTool (table : ToolTable (Prog E R)) (name : String) (index : Nat)
    (tool : Tool (Prog E R)) : Prop where
  at_index : table.tools[index]? = some tool
  named : tool.name = name
  first : ∀ i < index, ∀ other, table.tools[i]? = some other → other.name ≠ name

/-- The run of a handler a message led to. -/
structure Called (table : ToolTable (Prog E R)) (msg : Value) (out : Option Value)
    (run : HandlerRun) : Prop where
  answered : ∃ id, Request msg "tools/call" id ∧
    out = some (jsonResponse id (handlerResult run.result))
  tool : ∃ name tool, toolCall msg = some (name, run.arguments) ∧
    FirstTool table name run.index tool ∧ Returns (tool.handler run.arguments table.mode) run.result
  mode : run.mode = table.mode

/-! ## What the parts do -/

variable {server : ServerHost (Prog E R)} {table : ToolTable (Prog E R)} {s : List HandlerRun}

theorem keepsState_logIf (server : ServerHost (Prog E R)) (verbose : Bool) (text : String) :
    KeepsState (logIf (watchServer server) verbose text) := by
  unfold logIf
  split
  · exact keepsState_lift _
  · exact keepsState_pure ()

theorem keepsState_integrationName (server : ServerHost (Prog E R)) (base : String) :
    KeepsState (integrationName (watchServer server) base) := by
  unfold integrationName
  refine keepsState_bind (keepsState_lift _) fun computerName => ?_
  extract_lets named rest
  have hnamed : ∀ raw, KeepsState (named raw) := by
    intro raw
    unfold named
    dsimp only
    split
    · exact keepsState_pure _
    · exact keepsState_pure _
  have hrest : ∀ name, KeepsState (rest name) := by
    intro name
    unfold rest
    split
    · exact keepsState_bind (keepsState_pure _) hnamed
    · exact keepsState_bind (keepsState_lift _) fun _ => keepsState_bind (keepsState_pure _) hnamed
  cases computerName with
  | some value => exact keepsState_bind (keepsState_pure _) hrest
  | none => exact keepsState_bind (keepsState_lift _) hrest

/-- A handler that is run is put on record. -/
theorem returns_watchHandler {index : Nat}
    {handler : Value → AccessMode → Prog E R (Except String Value)} {arguments : Value}
    {mode : AccessMode} {p : Except String Value × List HandlerRun}
    (h : Returns (watchHandler index handler arguments mode s) p) :
    Returns (handler arguments mode) p.1 ∧ p.2 = s ++ [⟨index, arguments, mode, p.1⟩] := by
  obtain ⟨q, hq, h⟩ := returns_state_bind_iff.1 h
  obtain ⟨hresult, hstate⟩ := returns_lift_iff.1 hq
  obtain ⟨q', hq', h⟩ := returns_state_bind_iff.1 h
  have hmodify : q' = ((), q.2 ++ [⟨index, arguments, mode, q.1⟩]) := returns_pure_iff.1 hq'
  have hp : p = (q.1, q'.2) := returns_pure_iff.1 h
  rw [hp, hmodify, hstate]
  exact ⟨hresult, rfl⟩

/-- The tool that is looked up in a table on record is the first of its name. -/
theorem find_watch (table : ToolTable (Prog E R)) (name : String) :
    ((watch table).tools.find? (fun tool => tool.name = name) = none ∧
        ∀ tool ∈ table.tools, tool.name ≠ name) ∨
      ∃ index tool, FirstTool table name index tool ∧
        (watch table).tools.find? (fun tool => tool.name = name) = some (watchTool index tool) := by
  cases hfind : (watch table).tools.find? fun tool => tool.name = name with
  | none =>
      left
      refine ⟨rfl, ?_⟩
      intro tool htool hname
      obtain ⟨index, hlt, rfl⟩ := List.mem_iff_getElem.1 htool
      have hmem : watchTool index table.tools[index] ∈ (watch table).tools :=
        List.mem_mapIdx.2 ⟨index, hlt, rfl⟩
      have hne := List.find?_eq_none.1 hfind _ hmem
      exact hne (decide_eq_true hname)
  | some found =>
      right
      obtain ⟨hname, index, hlt, hfound, hfirst⟩ := List.find?_eq_some_iff_getElem.1 hfind
      have hlt' : index < table.tools.length := by simpa [watch] using hlt
      have hwatch : found = watchTool index table.tools[index] := by
        rw [← hfound]
        simp [watch]
      refine ⟨index, table.tools[index], ⟨List.getElem?_eq_getElem hlt', ?_, ?_⟩, by rw [hwatch]⟩
      · rw [hwatch] at hname
        exact of_decide_eq_true hname
      · intro i hi other hother
        obtain ⟨hi', rfl⟩ := List.getElem?_eq_some_iff.1 hother
        have hne := hfirst i hi
        simpa [watch, watchTool] using hne

/-- A call of a tool: there is none of that name, or the handler of the first one is run. -/
theorem returns_call {name : String} {arguments value : Value} {runs : List HandlerRun}
    (h : Returns ((watch table).call name arguments s) (value, runs)) :
    (runs = s ∧ ∀ tool ∈ table.tools, tool.name ≠ name) ∨
      ∃ index tool result, FirstTool table name index tool ∧
        Returns (tool.handler arguments table.mode) result ∧
        runs = s ++ [⟨index, arguments, table.mode, result⟩] ∧ value = handlerResult result := by
  unfold ToolTable.call at h
  rcases find_watch table name with ⟨hfind, hnone⟩ | ⟨index, tool, hfirst, hfind⟩
  · rw [hfind] at h
    have hp := returns_pure_iff.1 h
    exact .inl ⟨congrArg Prod.snd hp, hnone⟩
  · rw [hfind] at h
    obtain ⟨p, hp, h⟩ := returns_state_bind_iff.1 h
    obtain ⟨hresult, hrecord⟩ := returns_watchHandler hp
    refine .inr ⟨index, tool, p.1, hfirst, hresult, ?_⟩
    have hmode : (watch table).mode = table.mode := rfl
    rw [← hmode, ← hrecord]
    cases hp1 : p.1 with
    | ok v =>
        rw [hp1] at h
        have hq := returns_pure_iff.1 h
        exact ⟨congrArg Prod.snd hq, congrArg Prod.fst hq⟩
    | error err =>
        rw [hp1] at h
        have hq := returns_pure_iff.1 h
        exact ⟨congrArg Prod.snd hq, congrArg Prod.fst hq⟩

/-! ## Responses -/

theorem response_jsonResponse (id result : Value) : Response id (jsonResponse id result) where
  jsonrpc := by simp [jsonResponse, Value.get]
  id := by simp [jsonResponse, Value.get, List.lookup_cons]
  one := .inl (by simp [jsonResponse, Value.get, List.lookup_cons])

theorem response_errorResponse (id : Value) (code : Int64) (message : String) :
    Response id (errorResponse id code message) where
  jsonrpc := by simp [errorResponse, Value.get]
  id := by simp [errorResponse, Value.get, List.lookup_cons]
  one := .inr (by simp [errorResponse, Value.get, List.lookup_cons])

/-- What a request led to: no run and no tool to run, or the run of the first tool of the
name that is called. -/
inductive Led (table : ToolTable (Prog E R)) (method : String) (id msg : Value)
    (s : List HandlerRun) : Value → List HandlerRun → Prop where
  | nothing (response : Value)
      (none_called : ∀ name arguments, method = "tools/call" →
        toolCall msg = some (name, arguments) → ∀ tool ∈ table.tools, tool.name ≠ name) :
      Led table method id msg s response s
  | called {name : String} {arguments : Value} {index : Nat} {tool : Tool (Prog E R)}
      {result : Except String Value} (is_call : method = "tools/call")
      (call : toolCall msg = some (name, arguments)) (first : FirstTool table name index tool)
      (returned : Returns (tool.handler arguments table.mode) result) :
      Led table method id msg s (jsonResponse id (handlerResult result))
        (s ++ [⟨index, arguments, table.mode, result⟩])

theorem Led.other {method : String} (hmethod : method ≠ "tools/call") (id msg response : Value) :
    Led table method id msg s response s :=
  .nothing response fun _ _ hcall => absurd hcall hmethod

/-- A message with the method of a tool call calls a tool, or is answered with an error. -/
theorem callResponse_cases {m : Type → Type} [Monad m] (server : ServerHost m) (verbose : Bool)
    (table : ToolTable m) (id : Value) {msg : Value}
    (hmethod : msg.get "method" = some (.string "tools/call")) :
    (∃ name arguments, toolCall msg = some (name, arguments) ∧
        callResponse server verbose table id msg = (do
          logIf server verbose "tool started"
          let result ← table.call name arguments
          logIf server verbose "tool finished"
          pure (jsonResponse id result))) ∨
      (toolCall msg = none ∧ ∃ message,
        callResponse server verbose table id msg = pure (errorResponse id (-32602) message)) := by
  unfold callResponse toolCall
  rw [hmethod]
  cases msg.get "params" with
  | none => exact .inr ⟨rfl, _, rfl⟩
  | some value =>
      cases value with
      | object params =>
          simp only
          cases (Value.object params).get "name" with
          | none => exact .inr ⟨rfl, _, rfl⟩
          | some name =>
              cases name with
              | string name => exact .inl ⟨name, _, rfl, rfl⟩
              | _ => exact .inr ⟨rfl, _, rfl⟩
      | _ => exact .inr ⟨rfl, _, rfl⟩

theorem returns_callResponse {verbose : Bool} {id msg response : Value} {runs : List HandlerRun}
    (hmethod : msg.get "method" = some (.string "tools/call"))
    (h : Returns (callResponse (watchServer server) verbose (watch table) id msg s)
      (response, runs)) :
    Response id response ∧ Led table "tools/call" id msg s response runs := by
  rcases callResponse_cases (watchServer server) verbose (watch table) id hmethod with
    ⟨name, arguments, hcall, heq⟩ | ⟨hcall, message, heq⟩
  · rw [heq] at h
    obtain ⟨p, hp, h⟩ := returns_state_bind_iff.1 h
    rw [keepsState_logIf server verbose _ s p hp] at h
    obtain ⟨⟨value, runs'⟩, hvalue, h⟩ := returns_state_bind_iff.1 h
    obtain ⟨p', hp', h⟩ := returns_state_bind_iff.1 h
    rw [keepsState_logIf server verbose _ _ p' hp'] at h
    obtain ⟨⟨⟩⟩ := returns_pure_iff.1 h
    refine ⟨response_jsonResponse id value, ?_⟩
    rcases returns_call hvalue with ⟨rfl, hnone⟩ |
      ⟨index, tool, result, hfirst, hresult, rfl, rfl⟩
    · apply Led.nothing
      intro name' arguments' _ hcall'
      rw [hcall] at hcall'
      obtain ⟨⟨⟩⟩ := hcall'
      exact hnone
    · exact Led.called rfl hcall hfirst hresult
  · rw [heq] at h
    obtain ⟨⟨⟩⟩ := returns_pure_iff.1 h
    refine ⟨response_errorResponse id _ _, Led.nothing _ ?_⟩
    intro name arguments _ hcall'
    rw [hcall] at hcall'
    exact absurd hcall' (by simp)

/-! ## The law -/

/-- What became of a message: it is a request and was answered, or nothing was done. -/
inductive Handled (table : ToolTable (Prog E R)) (msg : Value) (s : List HandlerRun) :
    Option Value → List HandlerRun → Prop where
  | answered {method : String} {id response : Value} {runs : List HandlerRun}
      (request : Request msg method id) (shape : Response id response)
      (led : Led table method id msg s response runs) :
      Handled table msg s (some response) runs
  | ignored (no_request : ∀ method id, ¬ Request msg method id) : Handled table msg s none s

theorem isNotification_eq_false {id : Option Value} (h : isNotification id = false) :
    ∃ value, id = some value ∧ value ≠ .null := by
  match id, h with
  | some value, h =>
      refine ⟨value, rfl, ?_⟩
      rintro rfl
      exact absurd h (by simp [isNotification])

theorem Request.not_notification {msg : Value} {method : String} {id : Value}
    (h : Request msg method id) : isNotification (msg.get "id") = false := by
  rw [h.hasId]
  cases id with
  | null => exact absurd rfl h.notNull
  | _ => rfl

/-- A branch of the handling: a notification is ignored, a request is answered. -/
theorem handled_branch {msg : Value} {method : String} {out : Option Value} {runs : List HandlerRun}
    (hmethod : msg.get "method" = some (.string method))
    (hother : method ≠ "notifications/initialized") {answer : Watched E R (Option Value)}
    (hanswer : ∀ id, Returns (answer s) (out, runs) → (msg.get "id").getD .null = id →
      ∃ response, out = some response ∧ Response id response ∧
        Led table method id msg s response runs)
    (h : Returns ((if isNotification (msg.get "id") then pure none else answer) s) (out, runs)) :
    Handled table msg s out runs := by
  by_cases hnote : isNotification (msg.get "id") = true
  · rw [if_pos hnote] at h
    obtain ⟨⟨⟩⟩ := returns_pure_iff.1 h
    refine .ignored fun _ _ hrequest => ?_
    exact absurd (hnote.symm.trans hrequest.not_notification) (by simp)
  · rw [if_neg hnote] at h
    obtain ⟨id, hid, hnull⟩ := isNotification_eq_false (Bool.eq_false_iff.2 hnote)
    obtain ⟨response, rfl, hshape, hled⟩ := hanswer id h (by rw [hid]; rfl)
    exact .answered ⟨hmethod, hid, hnull, hother⟩ hshape hled

/-- A branch that answers without running anything. -/
theorem handled_pure {msg : Value} {method : String} {out : Option Value} {runs : List HandlerRun}
    (hmethod : msg.get "method" = some (.string method))
    (hother : method ≠ "notifications/initialized") (hcall : method ≠ "tools/call")
    {response : Value → Value} (hshape : ∀ id, Response id (response id))
    (h : Returns ((if isNotification (msg.get "id") then pure none
      else pure (some (response ((msg.get "id").getD .null))) : Watched E R (Option Value)) s)
      (out, runs)) :
    Handled table msg s out runs := by
  refine handled_branch hmethod hother (fun id h hid => ?_) h
  rw [hid] at h
  obtain ⟨⟨⟩⟩ := returns_pure_iff.1 h
  exact ⟨_, rfl, hshape id, Led.other hcall ..⟩

/-- A message is answered as the branch of its method says. -/
theorem returns_handleMessage {verbose : Bool} {msg : Value} {out : Option Value}
    {runs : List HandlerRun}
    (h : Returns (handleMessage (watchServer server) verbose (watch table) msg s) (out, runs)) :
    Handled table msg s out runs := by
  by_cases hshape : ∃ members method, msg = .object members ∧
      msg.get "method" = some (.string method)
  · obtain ⟨members, method, rfl, hmethod⟩ := hshape
    simp only [handleMessage, hmethod] at h
    obtain ⟨p, hp, h⟩ := returns_state_bind_iff.1 h
    rw [keepsState_logIf server verbose _ s p hp] at h
    by_cases hinit : method = "initialize"
    · rw [if_pos hinit] at h
      refine handled_branch hmethod (by rw [hinit]; decide) (fun id h hid => ?_) h
      obtain ⟨p, hp, h⟩ := returns_state_bind_iff.1 h
      rw [keepsState_integrationName server _ s p hp, hid] at h
      obtain ⟨⟨⟩⟩ := returns_pure_iff.1 h
      exact ⟨_, rfl, response_jsonResponse id _, Led.other (by rw [hinit]; decide) ..⟩
    rw [if_neg hinit] at h
    by_cases hinitialized : method = "notifications/initialized"
    · rw [if_pos hinitialized] at h
      obtain ⟨⟨⟩⟩ := returns_pure_iff.1 h
      refine .ignored fun method' id hrequest => hrequest.notInitialized ?_
      have heq := hrequest.hasMethod.symm.trans hmethod
      simp only [Option.some.injEq, Value.string.injEq] at heq
      exact heq.trans hinitialized
    rw [if_neg hinitialized] at h
    by_cases hping : method = "ping"
    · rw [if_pos hping] at h
      exact handled_pure hmethod hinitialized (by rw [hping]; decide)
        (fun id => response_jsonResponse id _) h
    rw [if_neg hping] at h
    by_cases hlist : method = "tools/list"
    · rw [if_pos hlist] at h
      exact handled_pure hmethod hinitialized (by rw [hlist]; decide)
        (fun id => response_jsonResponse id _) h
    rw [if_neg hlist] at h
    by_cases hcall : method = "tools/call"
    · rw [if_pos hcall] at h
      refine handled_branch hmethod hinitialized (fun id h hid => ?_) h
      obtain ⟨⟨response, runs'⟩, hresponse, h⟩ := returns_state_bind_iff.1 h
      obtain ⟨⟨⟩⟩ := returns_pure_iff.1 h
      subst hcall
      rw [hid] at hresponse
      exact ⟨response, rfl, returns_callResponse hmethod hresponse⟩
    · rw [if_neg hcall] at h
      exact handled_pure hmethod hinitialized hcall (fun id => response_errorResponse id _ _) h
  · have hnone : handleMessage (watchServer server) verbose (watch table) msg = pure none := by
      unfold handleMessage
      split
      · next members method hmethod => exact absurd ⟨members, method, rfl, hmethod⟩ hshape
      · rfl
    rw [hnone] at h
    obtain ⟨⟨⟩⟩ := returns_pure_iff.1 h
    refine .ignored fun method id hrequest => hshape ?_
    cases msg with
    | object members => exact ⟨members, method, rfl, hrequest.hasMethod⟩
    | _ => exact absurd hrequest.hasMethod (by simp [Value.get])

/-- **The law of dispatch.**  A message is answered exactly if it is a request, by one
response with its id.  One handler is run at most, that of the first tool of the name, and
only if the message calls a tool; what it returned is the result, an error as well. -/
theorem dispatch (server : ServerHost (Prog E R)) (verbose : Bool) (table : ToolTable (Prog E R))
    (msg : Value) (out : Option Value) (runs : List HandlerRun)
    (hrun : Returns (handleMessage (watchServer server) verbose (watch table) msg [])
      (out, runs)) :
    (out.isSome ↔ ∃ method id, Request msg method id) ∧
      (∀ method id response, Request msg method id → out = some response →
        Response id response) ∧
      (runs = [] ∨ ∃ run, runs = [run] ∧ Called table msg out run) ∧
      (∀ id name arguments, Request msg "tools/call" id → toolCall msg = some (name, arguments) →
        (∃ tool ∈ table.tools, tool.name = name) → runs ≠ []) ∧
      ∀ run ∈ runs, ∀ err, run.result = .error err → ∃ response result, out = some response ∧
        response.get "result" = some result ∧ result.get "isError" = some (.bool true) ∧
        response.get "error" = none := by
  cases returns_handleMessage hrun with
  | @answered method id response _ hrequest hshape hled =>
      have hsame : ∀ {method' id'}, Request msg method' id' → method' = method ∧ id' = id := by
        intro method' id' h'
        have hm := h'.hasMethod.symm.trans hrequest.hasMethod
        have hi := h'.hasId.symm.trans hrequest.hasId
        exact ⟨by simpa using hm, by simpa using hi⟩
      refine ⟨iff_of_true rfl ⟨method, id, hrequest⟩, ?_, ?_⟩
      · rintro method' id' _ h' ⟨⟩
        rw [(hsame h').2]
        exact hshape
      · cases hled with
        | nothing _ hnone =>
            refine ⟨.inl rfl, ?_, nofun⟩
            rintro id' name arguments h' hcall ⟨tool, htool, hname⟩
            exact absurd hname (hnone name arguments (hsame h').1.symm hcall tool htool)
        | @called name arguments index tool result hcall htool hfirst hreturned =>
            subst hcall
            refine ⟨.inr ⟨_, rfl, ⟨id, hrequest, rfl⟩, ⟨name, tool, htool, hfirst, hreturned⟩, rfl⟩,
              fun _ _ _ _ _ _ => by simp, ?_⟩
            intro run hrun err herr
            rw [List.nil_append, List.mem_singleton] at hrun
            subst hrun
            obtain rfl : result = .error err := herr
            exact ⟨_, errResult err, rfl, rfl, rfl, rfl⟩
  | ignored hnone =>
      refine ⟨iff_of_false (by simp) ?_, nofun, .inl rfl, ?_, nofun⟩
      · rintro ⟨method, id, h⟩
        exact hnone method id h
      · intro id _ _ h
        exact absurd h (hnone _ id)

/-! ## Two tools of one name -/

/-- A handler that fails with a text. -/
def failingTool (name err : String) : Tool (Prog Empty fun _ => Unit) :=
  ⟨name, "", emptySchema, fun _ _ => pure (.error err)⟩

def twoTools : ToolTable (Prog Empty fun _ => Unit) :=
  ⟨.full, [failingTool "a" "first", failingTool "a" "second"]⟩

/-- A server that shows nothing. -/
def silentServer : ServerHost (Prog Empty fun _ => Unit) :=
  ⟨fun _ => pure (), fun _ => pure none, pure none⟩

def callOfTwo : Value :=
  .object [("id", .number (.posInt 7)), ("method", .string "tools/call"),
    ("params", .object [("name", .string "a")])]

/-- The first of the two is run, and its error is in a proper response. -/
theorem dispatch_first :
    ∃ response, Returns (handleMessage (watchServer silentServer) false (watch twoTools) callOfTwo [])
        (some response, [⟨0, .object [], .full, .error "first"⟩]) ∧
      Response (.number (.posInt 7)) response := by
  have hrun : Returns
      (handleMessage (watchServer silentServer) false (watch twoTools) callOfTwo [])
      (some (jsonResponse (.number (.posInt 7)) (errResult "first")),
        [⟨0, .object [], .full, .error "first"⟩]) := .pure _
  have hrequest : Request callOfTwo "tools/call" (.number (.posInt 7)) :=
    ⟨rfl, rfl, nofun, by decide⟩
  exact ⟨_, hrun, (dispatch silentServer false twoTools callOfTwo _ _ hrun).2.1 _ _ _ hrequest rfl⟩

end Mcp
end FolkAround
