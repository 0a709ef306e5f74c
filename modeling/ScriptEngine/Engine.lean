import ScriptEngine.Compiler
import ScriptEngine.Invocation
import ScriptEngine.Restoration
import ScriptEngine.Stack
/-! The script engine: loading programs, making objects and stacks, and driving calls on them. -/

namespace ScriptEngine

/-- What the host asked for cannot be done. -/
inductive EngineError where
  | unknownProgram (id : ProgramId)
  | compile (error : CompileError)
  | register (error : RegisterError)
  | unknownClass (name : String)
  | staleObject
  | noActiveCall
  | callInProgress
deriving DecidableEq, Repr

def EngineError.message : EngineError → String
  | .unknownProgram id => s!"unknown program {id.text}"
  | .compile error => s!"compilation failed {error.message}"
  | .register error => error.message
  | .unknownClass name => s!"unknown class '{name}'"
  | .staleObject => "stale object handle"
  | .noActiveCall => "no call is active on this stack"
  | .callInProgress => "a call is already suspended on this stack"

structure Engine where
  ids : Identities := {}
  code : Code := {}
  world : World := {}
deriving Inhabited

/-- The settings of an engine. -/
inductive Setting where
  | maxCallDepth
  | maxLockWaiters
  | resolvePublicCalls
deriving DecidableEq, Repr

/-- What driving a call leads to. -/
structure Driven where
  outcome : Except EngineError Outcome
  engine : Engine
  stack : Stack
  gate : Gate

namespace Engine

def setting (engine : Engine) : Setting → Nat
  | .maxCallDepth => engine.code.maxCallDepth
  | .maxLockWaiters => engine.world.guards.maxWaiters
  | .resolvePublicCalls => engine.code.resolvePublic

def set (engine : Engine) (setting : Setting) (value : Nat) : Engine :=
  match setting with
  | .maxCallDepth => { engine with code := { engine.code with maxCallDepth := value } }
  | .maxLockWaiters =>
      let guards := { engine.world.guards with maxWaiters := value }
      { engine with world := { engine.world with guards } }
  | .resolvePublicCalls => { engine with code := { engine.code with resolvePublic := value } }

def withHeap (engine : Engine) (heap : Heap) : Engine :=
  { engine with world := { engine.world with heap } }

def register (engine : Engine) (decl : ClassDecl) : Except EngineError Engine :=
  match engine.code.classes.register decl with
  | .ok classes => .ok { engine with code := { engine.code with classes } }
  | .error error => .error (.register error)

def compileEnv (engine : Engine) : CompileEnv :=
  { classes := engine.code.classes
    programs := engine.code.programs
    published := engine.code.published
    withPublic := engine.code.resolvePublic ≠ 0 }

/-- Compile and load a program. Identities are used up also if it does not compile. -/
def compile (engine : Engine) (name source : String) : Except EngineError ProgramId × Engine :=
  let (id, ids) := engine.ids.nextProgram
  match Compiler.compile engine.compileEnv id name source ids with
  | (.ok program, ids, published) =>
      let programs := engine.code.programs.insert program
      (.ok id, { engine with ids, code := { engine.code with programs, published } })
  -- The unit's public functions are withdrawn from the index; its identities are not given back.
  | (.error error, ids, published) =>
      (.error (.compile error), { engine with ids, code := { engine.code with published } })

/-- Unload a program. Its public functions leave the index, its object stays on the heap. -/
def unload (engine : Engine) (id : ProgramId) : Except EngineError Engine :=
  match engine.code.programs.get? id with
  | none => .error (.unknownProgram id)
  | some program =>
      let programs := engine.code.programs.remove id
      let published := engine.code.published.eraseAll (program.all.map Function.id)
      .ok { engine with
        code := { engine.code with programs, published }
        world := engine.world.withoutInstance id }

def newInstance (engine : Engine) (className : String) : Except EngineError (Handle × Engine) :=
  match engine.code.classes.members? className with
  | none => .error (.unknownClass className)
  | some fields =>
      let (handle, heap) := engine.world.heap.allocate ⟨className, fields⟩
      .ok (handle, engine.withHeap heap)

def bindInstance (engine : Engine) (program : ProgramId) (handle : Handle) :
    Except EngineError Engine :=
  if (engine.world.heap.get? handle).isNone then .error .staleObject
  else if (engine.code.programs.get? program).isNone then .error (.unknownProgram program)
  else .ok { engine with world := engine.world.withInstance program handle }

/-- A stack for calls of functions of a program, under a new context. -/
def newStack (engine : Engine) (program : ProgramId) : Stack × Engine :=
  let (context, ids) := engine.ids.nextContext
  ({ context, program }, { engine with ids })

/-- What the host's call on a stack means: the function in progress, or the one its name resolves
to. -/
def entryCallee (code : Code) (stack : Stack) (entry : EntryCall) : Evaluation.Callee :=
  let types := entry.args.map Variable.type
  let resolved := match entry.receiver with
    | none => code.resolveCall stack.program entry.kept entry.name types
    | some receiver => code.resolveMethod receiver.className entry.kept entry.name types
  Evaluation.callee code stack.root entry.kept resolved

/-- Run the call on a stack until it ends or yields. -/
def drive (engine : Engine) (stack : Stack) (gate : Gate) : Driven :=
  match stack.entry with
  | none => ⟨.error .noActiveCall, engine, stack, gate⟩
  | some entry =>
      if (engine.code.programs.get? stack.program).isNone then
        ⟨.error (.unknownProgram stack.program), engine, stack, gate⟩
      else
        -- The frames of a call that is over are dropped, also where they still hold guards.
        let ended (outcome : Outcome) (stack : Stack) (engine : Engine) (gate : Gate) : Driven :=
          ⟨.ok outcome, engine, stack.finish, gate⟩
        let failed (error : RuntimeError) : Engine → Gate → Driven :=
          ended (.failed error) { stack with lastError := some error }
        match entryCallee engine.code stack entry with
        | .gone => failed ⟨.unknownFunction, none⟩ engine gate
        | .notFound cause => ended (.notFound cause) stack engine gate
        | .found function kept =>
            let invocation : Invocation :=
              ⟨function, entry.receiver.map Receiver.handle, entry.args, none, stack.program⟩
            let (progress, machine) := Invocation.run engine.code stack.context
              engine.code.maxCallDepth invocation stack.root ⟨engine.world, gate⟩
            let engine := { engine with world := machine.world }
            match progress with
            | .suspended root =>
                let entry := { entry with kept }
                ⟨.ok .suspended, engine, { stack with entry := some entry, root }, machine.gate⟩
            | .failed error => failed error engine machine.gate
            | .done value => ended (.completed value) stack engine machine.gate

/-- Start a call on an idle stack and drive it. -/
def start (engine : Engine) (stack : Stack) (entry : EntryCall) (gate : Gate) : Driven :=
  if stack.isActive then ⟨.error .callInProgress, engine, stack, gate⟩
  -- The call is on the stack before it is known whether its program is loaded.
  else engine.drive { stack with entry := some entry, root := {}, lastError := none } gate

def call (engine : Engine) (stack : Stack) (name : String) (args : Variables) (gate : Gate) :
    Driven :=
  engine.start stack { name, args } gate

def callMethod (engine : Engine) (stack : Stack) (handle : Handle) (name : String)
    (args : Variables) (gate : Gate) : Driven :=
  match engine.world.heap.get? handle with
  | none => ⟨.error .staleObject, engine, stack, gate⟩
  | some object =>
      engine.start stack { name, args, receiver := some ⟨handle, object.className⟩ } gate

def resume (engine : Engine) (stack : Stack) (gate : Gate) : Driven := engine.drive stack gate

/-- Make a stack that was loaded ready to be resumed. An idle stack is left alone. -/
def restore (engine : Engine) (stack : Stack) : Except EngineError (Engine × Stack) :=
  -- The context of an idle stack is not reserved.
  if !stack.isActive then .ok (engine, stack)
  else if (engine.code.programs.get? stack.program).isNone then
    .error (.unknownProgram stack.program)
  else
    let (root, guards) :=
      Restoration.restore engine.code stack.context stack.root engine.world.guards
    let engine := { engine with
      ids := engine.ids.reserveContext stack.context
      world := { engine.world with guards } }
    .ok (engine, { stack with root })

/-- Give up the call on a stack: every guard it holds is released as often as it was taken, and the
stack leaves every queue. -/
def abort (engine : Engine) (stack : Stack) : Engine × Stack :=
  let released := stack.root.heldGuards.foldl
    (fun guards owner => (guards.unlock owner stack.context).2) engine.world.guards
  let guards := released.withdraw stack.context
  ({ engine with world := { engine.world with guards } }, stack.finish)

end Engine

end ScriptEngine
