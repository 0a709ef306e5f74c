import ScriptEngine.Frame
import ScriptEngine.Json.Reader
import ScriptEngine.Snapshot.Variables
/-! Saved frame trees. The children of a frame are an object with their slots for names. -/

namespace ScriptEngine.Snapshot

def encodeCallKind : CallKind → Json
  | .function => .ofText "Function"
  | .method => .ofText "Method"
  | .dispatched isSynchronized =>
      form "Dispatched" (.ofMembers [("synchronized", .bool isSynchronized)])

def decodeCallKind : Decoder CallKind := fun levels json =>
  match choice? levels json with
  | some ("Function", .null, _) => some .function
  | some ("Method", .null, _) => some .method
  | some ("Dispatched", json, _ + 1) => do
      let record ← record? ["synchronized"] json
      let isSynchronized ← record.required "synchronized" Json.bool?
      return .dispatched isSynchronized
  | _ => none

def stepName : CallStep → String
  | .bindParams => "BindParams"
  | .bindInstance => "BindInstance"
  | .acquireGuard => "AcquireGuard"
  | .runBody => "RunBody"

def callSteps : List CallStep := [.bindParams, .bindInstance, .acquireGuard, .runBody]

def encodeCall (call : Call) : Json :=
  let owner := match call.owner with
    | some owner => [("owner", Json.ofText owner)]
    | none => []
  .ofMembers
    ([("function", .ofNat call.function.number), ("program", .ofNat call.program.number),
      ("kind", encodeCallKind call.kind), ("step", .ofText (stepName call.step))] ++ owner)

def decodeCall : Decoder Call
  | 0, _ => none
  | levels + 1, json => do
      let record ← record? ["function", "program", "kind", "step", "owner"] json
      let function ← record.required "function" longWord?
      let program ← record.required "program" word?
      let kind ← record.required "kind" (decodeCallKind levels)
      let step ← record.required "step" (oneOf stepName callSteps levels)
      let owner ← record.nullable "owner" Json.text?
      return { function := ⟨function⟩, program := ⟨program⟩, kind, step, owner }

def encodeState : FrameState → Json
  | .fresh => .ofText "Fresh"
  | .call call => form "Call" (encodeCall call)
  | .block next => form "Block" (.ofMembers [("pc", .ofNat next)])
  | .wait remaining => form "Wait" (.ofMembers [("remaining", .ofNat remaining)])
  | .eval => .ofText "Eval"

def decodeState : Decoder FrameState := fun levels json =>
  match choice? levels json with
  | some ("Fresh", .null, _) => some .fresh
  | some ("Call", json, levels) => (decodeCall levels json).map .call
  | some ("Block", json, _ + 1) => do
      let record ← record? ["pc"] json
      let next ← record.required "pc" word?
      return .block next
  | some ("Wait", json, _ + 1) => do
      let record ← record? ["remaining"] json
      let remaining ← record.required "remaining" word?
      return .wait remaining
  | some ("Eval", .null, _) => some .eval
  | _ => none

mutual

def encodeFrame : Frame → Json
  | ⟨state, vars, temps, children⟩ =>
      .ofMembers
        [("state", encodeState state), ("vars", encodeVariables vars),
          ("temps", .array (temps.map encodeValue)),
          ("children", .object (encodeChildren children))]

def encodeChildren : List (Nat × Frame) → List (List Char × Json)
  | [] => []
  | (slot, child) :: rest => (Nat.toDigits 10 slot, encodeFrame child) :: encodeChildren rest

end

def slot? (name : List Char) : Option Nat :=
  if Json.Mark.number name = name then word? (.number name) else none

def decodeChildren (decode : Json → Option Frame) :
    List (List Char × Json) → Option (List (Nat × Frame))
  | [] => some []
  | (name, json) :: rest => do
      let slot ← slot? name
      let child ← decode json
      let others ← decodeChildren decode rest
      return if (others.lookup slot).isSome then others else Frame.place slot child others

def decodeFrame : Decoder Frame
  | levels + 2, json => do
      let record ← record? ["state", "vars", "temps", "children"] json
      let state ← record.required "state" (decodeState (levels + 1))
      let vars ← record.required "vars" (decodeVariables (levels + 1))
      let temps ← record.required "temps" (items decodeValue (levels + 1))
      let children ← record.required "children" fun
        | .object members => decodeChildren (decodeFrame levels) members
        | _ => none
      return { state, vars, temps, children }
  | _, _ => none

end ScriptEngine.Snapshot
