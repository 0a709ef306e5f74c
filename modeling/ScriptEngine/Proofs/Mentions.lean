import ScriptEngine.Proofs.Watching
/-! What running code looks at. Each name that a call reads or stores into is mentioned with the
variables of the call and the objects there are at that moment. -/

namespace ScriptEngine

mutual

def Stmt.declarations : Stmt → List (VarId × String × DataType)
  | .declare _ id name type _ => [(id, name, type)]
  | .block _ stmts => Stmt.declarationsIn stmts
  | .return .. | .wait .. | .assign .. | .expr _ => []

def Stmt.declarationsIn : List Stmt → List (VarId × String × DataType)
  | [] => []
  | first :: rest => first.declarations ++ Stmt.declarationsIn rest

end

def Function.declarations (function : Function) : List (VarId × String × DataType) :=
  function.parameters.mapIdx (fun place param => (⟨place⟩, param)) ++
    Stmt.declarationsIn function.body.stmts

/-- A name of the body of a function while it is looked up. -/
structure Mention where
  function : Function
  target : Target
  vars : Variables
  heap : Heap

namespace Mention

/-- What the name stands for is there: a local exactly once, as it was declared, the object of the
method, and a member in that object as long as it is there. -/
def Bound (mention : Mention) : Prop :=
  match mention.target with
  | .local id => ∃ var, (mention.vars.filter fun var => var.binding = .var id) = [var] ∧
      mention.function.declarations.lookup id = some (var.name, var.type)
  | .reserved name => ∃ var handle, mention.vars.find? (.reserved name) = some var ∧
      var.value = .object handle
  | .member name => ∃ handle, mention.vars.this? = some handle ∧
      ∀ object, mention.heap.get? handle = some object → (object.field? name).isSome = true

/-- Names are noted as they are read and stored into. -/
def watcher : Watcher Mention where
  evaluated _ function vars expr ended :=
    match expr with
    | .var _ _ target => [⟨function, target, vars, ended.2.world.heap⟩]
    | .literal .. | .negate .. | .binary .. | .call .. => []
  stores function vars target machine := [⟨function, target, vars, machine.world.heap⟩]

end Mention

/-- The stack that an operation drives the call on, with the outcome and with what is mentioned. -/
def Host.driving (host : Host) (operation : Operation) : Option (Driven × List Mention) :=
  host.watching Mention.watcher operation

end ScriptEngine
