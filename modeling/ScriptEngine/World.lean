import ScriptEngine.Gate
import ScriptEngine.Guard
import ScriptEngine.Heap
/-! What running scripts change: the objects, the class guards, the objects that programs run their
methods on, and the identities that call sites keep. -/

namespace ScriptEngine

/-- A call site of a loaded program, known by the place of the called name in its source. -/
structure SiteId where
  program : ProgramId
  offset : Nat
deriving DecidableEq, Repr

structure World where
  heap : Heap := {}
  guards : GuardTable := {}
  /-- The object of each program that has one. -/
  instances : List (ProgramId × Handle) := []
  /-- What call sites found since they were compiled, the latest first. -/
  callees : List (SiteId × FunctionId) := []
deriving Inhabited

namespace World

def instance? (world : World) (program : ProgramId) : Option Handle :=
  world.instances.lookup program

def withoutInstance (world : World) (program : ProgramId) : World :=
  { world with instances := world.instances.filter fun entry => entry.1 ≠ program }

def withInstance (world : World) (program : ProgramId) (handle : Handle) : World :=
  { world with instances := (program, handle) :: (world.withoutInstance program).instances }

/-- The identity a call site keeps; `compiled` is the one it was compiled with. -/
def callee (world : World) (site : SiteId) (compiled : FunctionId) : FunctionId :=
  (world.callees.lookup site).getD compiled

def keepCallee (world : World) (site : SiteId) : Option FunctionId → World
  | none => world
  | some id =>
      { world with callees := (site, id) :: world.callees.filter fun entry => entry.1 ≠ site }

end World

/-- The world and the gate of the call that is driven. -/
structure Machine where
  world : World
  gate : Gate
deriving Inhabited

def Machine.withHeap (machine : Machine) (heap : Heap) : Machine :=
  { machine with world := { machine.world with heap } }

end ScriptEngine
