import ScriptEngine.ClassTable
import ScriptEngine.Json.Reader
import ScriptEngine.Snapshot.Variables
import ScriptEngine.Span
/-! How hosts and engines exchange values: as short documents in which integers are decimal texts
and floats are texts of their bits, so that no reader of numbers can change them. -/

namespace ScriptEngine.Exchange

def member? (json : Json) (name : String) : Option Json :=
  match json with
  | .object members =>
      (members.find? fun member => Json.unescape? member.1 = some name).bind fun member =>
        match member.2 with
        | .null => none
        | value => some value
  | _ => none

def list? {α : Type} (decode : Json → Option α) : Json → Option (List α)
  | .array items => items.mapM decode
  | _ => none

def each {α : Type} (encode : α → Json) (items : List α) : Json := .array (items.map encode)

def natural? (json : Json) : Option Nat := json.natBelow? UInt64.size

def spanJson (span : Span) : Json := each .ofNat [span.line, span.col, span.start, span.stop]

def span? (json : Json) : Option Span :=
  match list? natural? json with
  | some [line, col, start, stop] => some ⟨line, col, start, stop⟩
  | _ => none

def handleJson (handle : Handle) : Json := each .ofNat [handle.index, handle.generation]

def handle? (json : Json) : Option Handle :=
  match list? natural? json with
  | some [index, generation] => some ⟨index, generation⟩
  | _ => none

def typeText : DataType → String
  | .over .array _ element => typeText element ++ "[]"
  | type =>
      match type.kind, type.className? with
      | .object, some className => "class:" ++ className
      | kind, _ => kind.name

def behind? : List Char → List Char → Option (List Char)
  | [], text => some text
  | first :: start, char :: text => if first = char then behind? start text else none
  | _ :: _, [] => none

def reversedType? : List Char → Option DataType
  | ']' :: '[' :: element => (reversedType? element).map .arrayOf
  | reversed =>
      let text := reversed.reverse
      match behind? "class:".toList text with
      | some className => some (.object (String.ofList className))
      | none => (Kind.all.find? fun kind => kind.name.toList = text).map .ofKind

def typeJson (type : DataType) : Json := .ofText (typeText type)

def type? (json : Json) : Option DataType :=
  json.text?.bind fun text => reversedType? text.toList.reverse

def intJson (number : Int64) : Json := .ofText (toString number.toInt)

def int? (json : Json) : Option Int64 :=
  json.text?.bind fun text => Reading.int64? 10 text.toList

def floatText (number : Float) : String :=
  match Binary64.decode number with
  | .nan => "nan"
  | _ =>
      let digits := Nat.toDigits 16 number.toBits.toNat
      String.ofList (List.replicate (16 - digits.length) '0' ++ digits)

def floatJson (number : Float) : Json := .ofText (floatText number)

def float? (json : Json) : Option Float :=
  match json.text? with
  | some "nan" => some (0.0 / 0.0)
  | some text => (Reading.nat? 16 text.toList).map fun bits => Float.ofBits (UInt64.ofNat bits)
  | none => none

def valueJson : Value → Json
  | .void => .ofText "void"
  | .null => .ofText "null"
  | .bool value => .ofMembers [("bool", .bool value)]
  | .int number => .ofMembers [("int", intJson number)]
  | .float number => .ofMembers [("float", floatJson number)]
  | .string text => .ofMembers [("string", .ofText text)]
  | .object handle => .ofMembers [("object", handleJson handle)]

def value? (json : Json) : Option Value :=
  match json.text? with
  | some "void" => some .void
  | some "null" => some .null
  | _ =>
      ((member? json "bool").bind Json.bool?).map Value.bool <|>
      ((member? json "int").bind int?).map Value.int <|>
      ((member? json "float").bind float?).map Value.float <|>
      ((member? json "string").bind Json.text?).map Value.string <|>
      ((member? json "object").bind handle?).map Value.object

def bindingText : Binding → String
  | .unbound => "unbound"
  | .var id => s!"var:{id.number}"
  | .reserved name => name.name

def binding? (json : Json) : Option Binding := do
  let text ← json.text?
  if text = "unbound" then return .unbound
  match Reserved.ofName? text with
  | some name => return .reserved name
  | none =>
      let digits ← behind? "var:".toList text.toList
      return .var ⟨← Reading.nat? 10 digits⟩

def init? (json : Json) : Option InitState :=
  json.text?.bind fun text => Snapshot.initStates.find? fun init => Snapshot.initName init = text

def variableJson (var : Variable) : Json :=
  .ofMembers
    [("name", .ofText var.name), ("type", typeJson var.type), ("value", valueJson var.value),
      ("init", .ofText (Snapshot.initName var.init)), ("private", .bool var.isPrivate),
      ("binding", .ofText (bindingText var.binding))]

def arg? : Json → Option Variable
  | .array [form, value] => do
      match ← form.text? with
      | "int" => return .holding "" .int (.int (← int? value))
      | "long" => return .holding "" .long (.int (← int? value))
      | "float" => return .holding "" .float (.float (Binary64.toSingle (← float? value)))
      | "double" => return .holding "" .double (.float (← float? value))
      | "bool" => return .holding "" .bool (.bool (← value.bool?))
      | "string" => return .holding "" .string (.string (← value.text?))
      | _ => none
  | .array [form, first, second] => do
      match ← form.text? with
      | "object" => return .pointer "" (← first.text?) (← handle? second)
      | "var" => return .holding "" (← type? first) (← value? second)
      | _ => none
  | _ => none

def field? : Json → Option FieldDecl
  | .array [name, type] => do
      return { name := ← name.text?, type := ← type? type }
  | .array [name, type, isPrivate] => do
      return { name := ← name.text?, type := ← type? type, isPrivate := isPrivate.bool?.getD false }
  | _ => none

def method? : Json → Option MethodDecl
  | .array [name, params, returns] => do
      return { name := ← name.text?, params := ← list? type? params, returns := ← type? returns }
  | _ => none

def class? (json : Json) : Option ClassDecl := do
  let list {α : Type} (name : String) (decode : Json → Option α) : Option (List α) :=
    match member? json name with
    | some items => list? decode items
    | none => some []
  let parent ← match member? json "parent" with
    | some parent => parent.text?.map some
    | none => some none
  return {
    name := ← (member? json "name").bind Json.text?
    parent
    fields := ← list "fields" field?
    methods := ← list "methods" method? }

def classJson (decl : ClassDecl) : Json :=
  let fieldJson (field : FieldDecl) : Json :=
    .array [.ofText field.name, typeJson field.type, .bool field.isPrivate]
  let methodJson (method : MethodDecl) : Json :=
    .array [.ofText method.name, each typeJson method.params, typeJson method.returns]
  .ofMembers
    [("name", .ofText decl.name), ("parent", .orNull .ofText decl.parent),
      ("fields", each fieldJson decl.fields), ("methods", each methodJson decl.methods)]

end ScriptEngine.Exchange
