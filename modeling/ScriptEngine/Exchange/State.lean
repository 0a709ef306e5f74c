import ScriptEngine.Engine
import ScriptEngine.Exchange.Values
import ScriptEngine.Snapshot.Stacks
/-! What hosts are shown of a running engine: errors, outcomes, objects, guards and frame trees. -/

namespace ScriptEngine.Exchange

def causeJson (cause : CompileCause) : Json := .ofText cause.code

def compileErrorJson (error : CompileError) : Json :=
  .ofMembers
    [("error", causeJson error.cause), ("span", spanJson error.span),
      ("detail", .orNull .ofText error.detail), ("message", .ofText error.message)]

def runtimeErrorJson (error : RuntimeError) : Json :=
  .ofMembers
    [("error", .ofText error.cause.code), ("span", .orNull spanJson error.span),
      ("message", .ofText error.message)]

def unresolvedJson (cause : CompileCause) : Json :=
  .ofMembers [("error", causeJson cause), ("message", .ofText cause.text)]

def registerErrorName : RegisterError → String
  | .duplicateClass _ => "DuplicateClass"
  | .unknownParent _ _ => "UnknownParent"

def engineErrorName : EngineError → String
  | .unknownProgram _ => "UnknownProgram"
  | .compile _ => "Compile"
  | .register error => registerErrorName error
  | .unknownClass _ => "UnknownClass"
  | .staleObject => "StaleObject"
  | .noActiveCall => "NoActiveCall"
  | .callInProgress => "CallInProgress"

def engineErrorJson (error : EngineError) : Json :=
  let place := match error with
    | .compile failure =>
        [("code", causeJson failure.cause), ("span", spanJson failure.span),
          ("detail", .orNull .ofText failure.detail)]
    | _ => []
  .ofMembers
    (("error", .ofText (engineErrorName error)) :: ("message", .ofText error.message) :: place)

def outcomeJson : Except EngineError Outcome → Json
  | .ok (.completed value) => .ofMembers [("completed", valueJson value)]
  | .ok .suspended => .ofText "suspended"
  | .ok (.failed error) => .ofMembers [("failed", runtimeErrorJson error)]
  | .ok (.notFound cause) =>
      .ofMembers [("not_found", causeJson cause), ("message", .ofText cause.text)]
  | .error error => engineErrorJson error

def gateJson? : Gate → Option Json
  | .unlimited => none
  | .budget remaining => some (.ofMembers [("remaining", .ofNat remaining)])
  | .scripted _ queries => some (.ofMembers [("queries", .ofNat queries)])

def gate? : Json → Option Gate
  | .array answers => (answers.mapM Json.bool?).map fun answers => .scripted answers 0
  | json => (natural? json).map .budget

def drivenJson (driven : Driven) : Json :=
  let gate := match gateJson? driven.gate with
    | some gate => [("gate", gate)]
    | none => []
  .ofMembers
    (("outcome", outcomeJson driven.outcome) :: ("active", .bool driven.stack.isActive) :: gate)

def objectJson (object : Object) : Json :=
  .ofMembers
    [("class", .ofText object.className), ("fields", each variableJson object.fields)]

def contextJson (context : ContextId) : Json := .ofNat context.number

def guardJson (guard : Guard) : Json :=
  .ofMembers
    [("holder", .orNull contextJson guard.holder), ("locked", .bool guard.isLocked),
      ("depth", .ofNat guard.depth), ("waiters", each contextJson guard.waiters)]

def callKindText : CallKind → String
  | .function => "function"
  | .method => "method"
  | .dispatched false => "dispatched"
  | .dispatched true => "synchronized"

def callKind? (json : Json) : Option CallKind :=
  json.text?.bind fun text =>
    [.function, .method, .dispatched false, .dispatched true].find? fun kind =>
      callKindText kind = text

def callJson (call : Call) : Json :=
  .ofMembers
    [("function", .ofNat call.function.number), ("program", .ofNat call.program.number),
      ("kind", .ofText (callKindText call.kind)), ("step", .ofText (Snapshot.stepName call.step)),
      ("owner", .orNull .ofText call.owner), ("guard_held", .bool call.holdsGuard),
      ("held_guard", .orNull .ofText call.heldGuard?)]

def stateJson : FrameState → Json
  | .fresh => .ofText "fresh"
  | .call call => .ofMembers [("call", callJson call)]
  | .block next => .ofMembers [("block", .ofNat next)]
  | .wait remaining => .ofMembers [("wait", .ofNat remaining)]
  | .eval => .ofText "eval"

mutual

def frameJson : Frame → Json
  | ⟨state, vars, temps, children⟩ =>
      .ofMembers
        [("state", stateJson state), ("vars", each variableJson vars),
          ("temps", each valueJson temps), ("children", .array (childrenJson children))]

def childrenJson : List (Nat × Frame) → List Json
  | [] => []
  | (slot, child) :: rest => .array [.ofNat slot, frameJson child] :: childrenJson rest

end

def stackJson (stack : Stack) : Json :=
  .ofMembers
    [("context", contextJson stack.context), ("program", .ofNat stack.program.number),
      ("active", .bool stack.isActive),
      ("last_error", .orNull runtimeErrorJson stack.lastError), ("root", frameJson stack.root)]

end ScriptEngine.Exchange
