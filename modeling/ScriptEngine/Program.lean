import ScriptEngine.Body
import ScriptEngine.Signature
/-! Compiled functions and the programs they belong to. -/

namespace ScriptEngine

/-- A compiled function. Its locals, parameters included, are numbered in the order given. -/
structure Function where
  signature : Signature
  program : ProgramId
  body : Block
  locals : List String
deriving Inhabited

namespace Function

def id (function : Function) : FunctionId := function.signature.id

def header (function : Function) : Header := function.signature.header

def name (function : Function) : String := function.header.name

def params (function : Function) : ParamList := function.header.params

def returns (function : Function) : DataType := function.header.returns

def owner (function : Function) : Option String := function.header.owner

def isPublic (function : Function) : Bool := function.header.modifiers.isPublic

def callable (function : Function) : Callable := function.signature.callable

def localId? (function : Function) (name : String) : Option VarId :=
  (function.locals.findIdx? fun known => known = name).map VarId.mk

def newCall (function : Function) : Call :=
  { function := function.id
    program := function.program
    kind := function.signature.callKind
    owner := function.owner }

end Function

/-- A loaded unit: its functions in the order they were declared, methods of class blocks among
them. -/
structure Program where
  id : ProgramId
  name : String
  functions : List Function
deriving Inhabited

def insertName (name : String) : List String → List String
  | [] => [name]
  | first :: rest =>
      if name < first then name :: first :: rest
      else if name = first then first :: rest
      else first :: insertName name rest

namespace Program

def free (program : Program) : List Function :=
  program.functions.filter fun function => function.signature.classBlock.isNone

def methods (program : Program) (className : String) : List Function :=
  program.functions.filter fun function => function.signature.classBlock = some className

def methodClasses (program : Program) : List String :=
  (program.functions.filterMap fun function => function.signature.classBlock).foldr insertName []

def all (program : Program) : List Function :=
  program.free ++ program.methodClasses.flatMap program.methods

def function? (program : Program) (id : FunctionId) : Option Function :=
  program.functions.find? fun function => function.id = id

end Program

/-- The loaded programs in the order they were loaded, and for each class those of them that have
methods for it. -/
structure Programs where
  loaded : List Program := []
  byClass : List (String × List ProgramId) := []
deriving Inhabited

namespace Programs

instance : Membership Program Programs := ⟨fun programs program => program ∈ programs.loaded⟩

def get? (programs : Programs) (id : ProgramId) : Option Program :=
  programs.loaded.find? fun program => program.id = id

def noteMethods (id : ProgramId) (className : String) :
    List (String × List ProgramId) → List (String × List ProgramId)
  | [] => [(className, [id])]
  | entry :: rest =>
      if entry.1 = className then (className, entry.2 ++ [id]) :: rest
      else entry :: noteMethods id className rest

def forget (id : ProgramId) : List (String × List ProgramId) → List (String × List ProgramId)
  | [] => []
  | entry :: rest =>
      match entry.2.filter (· ≠ id) with
      | [] => forget id rest
      | left => (entry.1, left) :: forget id rest

def insert (programs : Programs) (program : Program) : Programs :=
  { loaded := programs.loaded ++ [program]
    byClass := program.methodClasses.foldl
      (fun noted className => noteMethods program.id className noted) programs.byClass }

def remove (programs : Programs) (id : ProgramId) : Programs :=
  { loaded := programs.loaded.filter fun program => program.id ≠ id
    byClass := forget id programs.byClass }

def holders (programs : Programs) (className : String) : List ProgramId :=
  (programs.byClass.lookup className).getD []

/-- The methods the loaded programs have for a class, not for its ancestors. -/
def classMethods (programs : Programs) (className : String) : List Function :=
  (programs.holders className).flatMap fun id =>
    ((programs.get? id).map fun program => program.methods className).getD []

def function? (programs : Programs) (program : ProgramId) (id : FunctionId) : Option Function :=
  (programs.get? program).bind fun found => found.function? id

theorem mem_of_get? {programs : Programs} {id : ProgramId} {program : Program}
    (found : programs.get? id = some program) : program ∈ programs ∧ program.id = id := by
  have named := List.find?_some found
  exact ⟨List.mem_of_find?_eq_some found, by simpa using named⟩

theorem mem_classMethods {programs : Programs} {className : String} {function : Function}
    (among : function ∈ programs.classMethods className) :
    ∃ program ∈ programs, function ∈ program.functions ∧
      function.signature.classBlock = some className := by
  obtain ⟨id, _, held⟩ := List.mem_flatMap.mp among
  cases found : programs.get? id with
  | none =>
      rw [found] at held
      cases held
  | some program =>
      rw [found] at held
      obtain ⟨declared, enclosed⟩ := List.mem_filter.mp held
      exact ⟨program, (mem_of_get? found).1, declared, of_decide_eq_true enclosed⟩

end Programs

end ScriptEngine
