import ScriptEngine.Program
import ScriptEngine.PublicIndex
/-! What is loaded into an engine and does not change while scripts run, and which function a call
of a running script means. -/

namespace ScriptEngine

structure Code where
  classes : ClassTable := {}
  programs : Programs := {}
  published : PublicIndex Function := .empty
  /-- The number of nested calls that are allowed. -/
  maxCallDepth : Nat := 128
  /-- Free calls may mean public functions unless this is zero. -/
  resolvePublic : Nat := 1
deriving Inhabited

namespace Code

/-- The public functions, the newest first. An entry leaves the index with its program. -/
def publicFunctions (code : Code) : List Function := code.published.functions some

/-- The function a free call made in a program means: one of its own, or a public one. -/
def resolveCall (code : Code) (program : ProgramId) (kept : Option FunctionId) (name : String)
    (args : List DataType) : Except CompileCause Function × Option FunctionId :=
  let own := match code.programs.get? program with
    | some found => found.free
    | none => []
  Overload.resolve Function.callable code.classes.derives (code.resolvePublic ≠ 0) kept name args
    own code.publicFunctions

/-- The method a call on an object of a class means, looked for up the class and its ancestors. -/
def resolveMethod (code : Code) (className : String) (kept : Option FunctionId) (name : String)
    (args : List DataType) : Except CompileCause Function × Option FunctionId :=
  let offered := (code.classes.chain className).map fun decl => code.programs.classMethods decl.name
  Overload.resolveAlong Function.callable code.classes.derives kept name args none offered

def function? (code : Code) (id : FunctionId) : Option Function :=
  match code.programs.loaded.findSome? fun program => program.function? id with
  | some function => some function
  | none => code.published.get? some id

end Code

end ScriptEngine
