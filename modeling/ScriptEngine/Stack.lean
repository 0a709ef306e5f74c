import ScriptEngine.Error
import ScriptEngine.Frame
/-! Independent executions. A stack holds the frames of the call in progress on it and nothing that
the engine owns, so that it can be saved, and loaded into another engine with the same programs. -/

namespace ScriptEngine

/-- The object a call of the host is made on, and its class when the call started. -/
structure Receiver where
  handle : Handle
  className : String
deriving DecidableEq, Repr

/-- The call a stack was started with. -/
structure EntryCall where
  name : String
  args : Variables
  receiver : Option Receiver := none
  /-- The function found when the call first ran. -/
  kept : Option FunctionId := none
deriving Inhabited

structure Stack where
  context : ContextId
  /-- The program that free calls of the host mean functions of. -/
  program : ProgramId
  entry : Option EntryCall := none
  root : Frame := {}
  lastError : Option RuntimeError := none
deriving Inhabited

namespace Stack

def isActive (stack : Stack) : Bool := stack.entry.isSome

def finish (stack : Stack) : Stack := { stack with entry := none, root := {} }

end Stack

/-- How far a call of the host got. -/
inductive Outcome where
  | completed (value : Value)
  | suspended
  | failed (error : RuntimeError)
  | notFound (cause : CompileCause)

end ScriptEngine
