import ScriptEngine.Evaluation
/-! Calls. A call binds its parameters, then the object it runs on, then takes the guard of its
class if it is synchronized, and then runs its body. The frame records the step that comes next, so
a call that yielded repeats none. -/

namespace ScriptEngine.Invocation

/-- The object that methods of a class declared in a program run on without a receiver: the one
bound to the program if it fits, and a new one if not. The first new one is bound. -/
def programInstance (code : Code) (program : ProgramId) (className : String) (world : World) :
    Except RuntimeError (Handle × World) :=
  let bound := world.instance? program
  let fitting := bound.filter fun handle =>
    match world.heap.get? handle with
    | some object => code.classes.derives object.className className
    | none => false
  match fitting with
  | some handle => .ok (handle, world)
  | none =>
      match code.classes.members? className with
      | none => .error ⟨.missingInstance, none⟩
      | some fields =>
          let (handle, heap) := world.heap.allocate ⟨className, fields⟩
          let world := { world with heap }
          .ok (handle, if bound.isNone then world.withInstance program handle else world)

def reservedVariables (code : Code) (owner : String) (handle : Handle) : Variables :=
  let reserved (name : Reserved) (className : String) : Variable :=
    (Variable.pointer name.name className handle).bind (.reserved name)
  reserved .this owner :: match code.classes.parent? owner with
    | some parent => [reserved .super parent]
    | none => []

def bindInstance (code : Code) (invocation : Invocation) (vars : Variables) (world : World) :
    Except RuntimeError (Variables × World) :=
  match invocation.function.owner with
  | none => .ok (vars, world)
  | some owner => do
      let (handle, world) ← match invocation.receiver with
        | some handle => .ok (handle, world)
        | none => programInstance code invocation.function.program owner world
      return (vars ++ reservedVariables code owner handle, world)

def result (function : Function) : Completion → Except RuntimeError Value
  | .next => .ok (.default function.returns)
  | .return value =>
      match value.convert? function.returns with
      | some converted => .ok converted
      | none => .error ⟨.typeMismatch, none⟩

def releaseGuard (context : ContextId) (call : Call) (machine : Machine) : Machine :=
  match call.heldGuard? with
  | none => machine
  | some owner =>
      let guards := (machine.world.guards.unlock owner context).2
      { machine with world := { machine.world with guards } }

section

variable (activation : Activation) (invocation : Invocation)

def bodyStep (call : Call) (vars : Variables) (frame : Frame) (machine : Machine) :
    Progress Value × Machine :=
  let frame := { frame with state := .call call, vars }
  -- The gate is asked whenever a body starts or goes on.
  let (allowed, gate) := machine.gate.ask
  let machine := { machine with gate }
  if !allowed then (.suspended frame, machine)
  else
    match Evaluation.execBlock activation invocation.function.body.stmts (frame.child 0)
        ⟨vars, machine⟩ with
    | (.suspended body, state) =>
        (.suspended { frame.withChild 0 body with vars := state.vars }, state.machine)
    | (.done completion, state) =>
        (.ofExcept (result invocation.function completion),
          releaseGuard activation.context call state.machine)
    | (.failed error, state) =>
        (.failed error, releaseGuard activation.context call state.machine)

def guardStep (call : Call) (vars : Variables) (frame : Frame) (machine : Machine) :
    Progress Value × Machine :=
  let (taken, guards) :=
    machine.world.guards.tryLock (invocation.function.owner.getD "") activation.context
  let machine := { machine with world := { machine.world with guards } }
  if taken then bodyStep activation invocation call.advance vars frame machine
  else (.suspended { frame with state := .call call, vars }, machine)

def instanceStep (call : Call) (vars : Variables) (frame : Frame) (machine : Machine) :
    Progress Value × Machine :=
  match bindInstance activation.code invocation vars machine.world with
  | .error error => (.failed error, machine)
  | .ok (vars, world) =>
      let machine := { machine with world }
      let next := call.advance
      if next.step = .acquireGuard then
        guardStep activation invocation next vars frame machine
      else bodyStep activation invocation next vars frame machine

def paramsStep (call : Call) (vars : Variables) (frame : Frame) (machine : Machine) :
    Progress Value × Machine :=
  match invocation.function.params.bind invocation.args vars with
  | (_, some error) => (.failed error, machine)
  | (vars, none) =>
      let next := call.advance
      if next.step = .bindInstance then
        instanceStep activation invocation next vars frame machine
      else bodyStep activation invocation next vars frame machine

def steps (call : Call) (frame : Frame) (machine : Machine) : Progress Value × Machine :=
  match call.step with
  | .bindParams => paramsStep activation invocation call frame.vars frame machine
  | .bindInstance => instanceStep activation invocation call frame.vars frame machine
  | .acquireGuard => guardStep activation invocation call frame.vars frame machine
  | .runBody => bodyStep activation invocation call frame.vars frame machine

end

def entered (invocation : Invocation) (frame : Frame) : Call × Frame :=
  match frame.call? with
  | some call => (call, frame)
  | none =>
      let call := invocation.function.newCall
      (call, { state := .call call })

def reportedError (invocation : Invocation) (error : RuntimeError) : RuntimeError :=
  -- A place in another program means nothing to the caller.
  if invocation.function.program = invocation.caller then error
  else error.positionedAt invocation.site

/-- Start or continue a call with `depth` nested calls allowed, itself included. -/
def run (code : Code) (context : ContextId) :
    Nat → Invocation → Frame → Machine → Progress Value × Machine
  | 0, invocation, _, machine =>
      let overflow : RuntimeError := ⟨.stackOverflow, none⟩
      (.failed (overflow.positionedAt invocation.site), machine)
  | depth + 1, invocation, frame, machine =>
      let activation : Activation :=
        ⟨code, context, invocation.function.program, run code context depth⟩
      let (call, frame) := entered invocation frame
      match steps activation invocation call frame machine with
      | (.failed error, machine) => (.failed (reportedError invocation error), machine)
      | ended => ended

end ScriptEngine.Invocation
