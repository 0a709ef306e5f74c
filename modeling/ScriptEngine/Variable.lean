import ScriptEngine.Identity
import ScriptEngine.Value
/-! Named and typed variables: parameters, locals, members of objects and arguments of calls. While
a call runs, a binding tells what a variable is to the body; bindings are looked up, names are not.
-/

namespace ScriptEngine

/-- The object a method runs on, as its own class and as the parent class. -/
inductive Reserved where
  | this
  | super
deriving DecidableEq, Repr

namespace Reserved

def name : Reserved → String
  | .this => "this"
  | .super => "super"

def ofName? : String → Option Reserved
  | "this" => some .this
  | "super" => some .super
  | _ => none

end Reserved

inductive Binding where
  | unbound
  | var (id : VarId)
  | reserved (name : Reserved)
deriving DecidableEq, Repr, Inhabited

/-- What is known of the value of a variable. -/
inductive InitState where
  | undefined
  | defined
  | null
  | pointer
deriving DecidableEq, Repr, Inhabited

structure Variable where
  name : String
  type : DataType
  value : Value
  init : InitState
  isPrivate : Bool := false
  binding : Binding := .unbound
deriving Inhabited

namespace Variable

def new (name : String) (type : DataType) : Variable :=
  { name, type, value := .default type, init := .undefined }

def holding (name : String) (type : DataType) (value : Value) : Variable :=
  { name, type, value, init := if value.isNull then .null else .defined }

def pointer (name className : String) (handle : Handle) : Variable :=
  { name, type := .object className, value := .object handle, init := .pointer }

def set (var : Variable) (value : Value) : Variable :=
  let init :=
    if value.isNull then .null
    else if var.init = .pointer then .pointer
    else .defined
  { var with value, init }

def copyFrom (var other : Variable) : Variable :=
  { var with value := other.value, init := other.init }

def bind (var : Variable) (binding : Binding) : Variable :=
  { var with binding }

end Variable

/-- The variables of one call, in the order they came into being. -/
abbrev Variables := List Variable

namespace Variables

def find? (vars : Variables) (binding : Binding) : Option Variable :=
  if binding = .unbound then none
  else List.find? (fun var => var.binding = binding) vars

def updateFirst (wanted : Variable → Bool) (change : Variable → Variable) : Variables → Variables
  | [] => []
  | var :: rest =>
      if wanted var then change var :: rest
      else var :: updateFirst wanted change rest

def update (vars : Variables) (binding : Binding) (change : Variable → Variable) : Variables :=
  if binding = .unbound then vars
  else updateFirst (fun var => var.binding = binding) change vars

def this? (vars : Variables) : Option Handle :=
  (find? vars (.reserved .this)).bind fun var => var.value.asObject?

end Variables

end ScriptEngine
