/-! Identities of functions, programs, contexts and variables. An engine counts functions, programs
and contexts upwards from one; engines that load the same programs in the same order agree on all
of them, which is what lets a saved execution name the code it was running. -/

namespace ScriptEngine

structure FunctionId where
  number : Nat
deriving DecidableEq, Repr, Inhabited

structure ProgramId where
  number : Nat
deriving DecidableEq, Repr, Inhabited

/-- One independent execution; class guards are held in its name. -/
structure ContextId where
  number : Nat
deriving DecidableEq, Repr, Inhabited

/-- A parameter or local of one function, counted from zero, parameters first. -/
structure VarId where
  number : Nat
deriving DecidableEq, Repr, Inhabited

def FunctionId.text (id : FunctionId) : String := s!"fn#{id.number}"

def ProgramId.text (id : ProgramId) : String := s!"program_{id.number}"

def ContextId.text (id : ContextId) : String := s!"ctx#{id.number}"

/-- The identities handed out last. -/
structure Identities where
  lastFunction : Nat := 0
  lastProgram : Nat := 0
  lastContext : Nat := 0
deriving DecidableEq, Repr, Inhabited

namespace Identities

def nextFunction (ids : Identities) : FunctionId × Identities :=
  (⟨ids.lastFunction + 1⟩, { ids with lastFunction := ids.lastFunction + 1 })

def nextProgram (ids : Identities) : ProgramId × Identities :=
  (⟨ids.lastProgram + 1⟩, { ids with lastProgram := ids.lastProgram + 1 })

def nextContext (ids : Identities) : ContextId × Identities :=
  (⟨ids.lastContext + 1⟩, { ids with lastContext := ids.lastContext + 1 })

def reserveContext (ids : Identities) (id : ContextId) : Identities :=
  { ids with lastContext := max ids.lastContext id.number }

end Identities

end ScriptEngine
