import ScriptEngine.Snapshot.Record
import ScriptEngine.Variable
/-! Saved types, values and variables. A variable is saved without its binding, which belongs to the
function that runs. -/

namespace ScriptEngine.Snapshot

def kindName : Kind → String
  | .void => "Void"
  | .byte => "Byte"
  | .short => "Short"
  | .char => "Char"
  | .int => "Int"
  | .long => "Long"
  | .float => "Float"
  | .double => "Double"
  | .bool => "Bool"
  | .string => "String"
  | .array => "Array"
  | .object => "Class"
  | .null => "Null"

def encodeType (type : DataType) : Json :=
  let element := match type with
    | .single _ _ => .null
    | .over _ _ element => encodeType element
  .ofMembers
    [("kind", .ofText (kindName type.kind)), ("class", .orNull Json.ofText type.className?),
      ("element", element)]

def decodeType : Decoder DataType
  | 0, _ => none
  | levels + 1, json => do
      let record ← record? ["kind", "class", "element"] json
      let kind ← record.required "kind" (oneOf kindName Kind.all levels)
      let className ← record.nullable "class" Json.text?
      let element ← record.nullable "element" (decodeType levels)
      return .ofParts kind className element

def encodeHandle (handle : Handle) : Json :=
  .ofMembers [("index", .ofNat handle.index), ("generation", .ofNat handle.generation)]

def decodeHandle : Decoder Handle
  | 0, _ => none
  | _ + 1, json => do
      let record ← record? ["index", "generation"] json
      let index ← record.required "index" word?
      let generation ← record.required "generation" word?
      return ⟨index, generation⟩

def encodeValue : Value → Json
  | .void => .ofText "Void"
  | .bool value => form "Bool" (.bool value)
  | .int number => form "Int" (.ofInt number.toInt)
  | .float number => form "Float" (.ofFloat number)
  | .string text => form "String" (.ofText text)
  | .object handle => form "Object" (encodeHandle handle)
  | .null => .ofText "Null"

def decodeValue : Decoder Value := fun levels json =>
  match choice? levels json with
  | some ("Void", .null, _) => some .void
  | some ("Bool", json, _) => json.bool?.map .bool
  | some ("Int", json, _) => json.int64?.map .int
  | some ("Float", json, _) => json.float?.map .float
  | some ("String", json, _) => json.text?.map .string
  | some ("Object", json, levels) => (decodeHandle levels json).map .object
  | some ("Null", .null, _) => some .null
  | _ => none

def initName : InitState → String
  | .undefined => "Undefined"
  | .defined => "Defined"
  | .null => "Null"
  | .pointer => "IsPointer"

def initStates : List InitState := [.undefined, .defined, .null, .pointer]

def encodeVariable (var : Variable) : Json :=
  .ofMembers
    [("name", .ofText var.name), ("data_type", encodeType var.type),
      ("value", encodeValue var.value), ("init", .ofText (initName var.init)),
      ("private", .bool var.isPrivate)]

def decodeVariable : Decoder Variable
  | 0, _ => none
  | levels + 1, json => do
      let record ← record? ["name", "data_type", "value", "init", "private"] json
      let name ← record.required "name" Json.text?
      let type ← record.required "data_type" (decodeType levels)
      let value ← record.required "value" (decodeValue levels)
      let init ← record.required "init" (oneOf initName initStates levels)
      let isPrivate ← record.required "private" Json.bool?
      return { name, type, value, init, isPrivate }

def encodeVariables (vars : Variables) : Json := .array (vars.map encodeVariable)

def decodeVariables : Decoder Variables := items decodeVariable

end ScriptEngine.Snapshot
