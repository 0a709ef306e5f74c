import ScriptEngine.Proofs.Bodies
import ScriptEngine.Proofs.Hosting
/-! Watching code run. A watcher notes something of each expression that is evaluated and of each name
that is stored into. Notes are taken along the way that running takes, so what they are about is what
is evaluated, in the order it is. -/

namespace ScriptEngine

/-- What is noted of an expression that was evaluated with the variables of a call of a function, from
what it came to; and of a name that a value is about to be stored into. -/
structure Watcher (α : Type) where
  evaluated : Code → Function → Variables → Expr → Progress Value × Machine → List α
  stores : Function → Variables → Target → Machine → List α

namespace Evaluation

/-- What the call of a site goes to whose operands, of the given types, are the temporaries: a
callee, its object and its arguments. -/
def choose (activation : Activation) (site : CallSite) (types : List DataType) (frame : Frame)
    (machine : Machine) : Except RuntimeError (Callee × Option Handle × Variables) :=
  let kept := some (machine.world.callee ⟨activation.program, site.offset⟩ site.callee)
  let child := frame.child types.length
  if site.hasReceiver then
    match receiver machine.world.heap site frame.temps with
    | .error error => .error error
    | .ok (handle, className) =>
        let resolved := activation.code.resolveMethod className kept site.name (types.drop 1)
        .ok (callee activation.code child none resolved, some handle,
          arguments (types.drop 1) (frame.temps.drop 1))
  else
    let resolved := activation.code.resolveCall activation.program kept site.name types
    .ok (callee activation.code child none resolved, none, arguments types frame.temps)

theorem callSite_eq (activation : Activation) (site : CallSite) (types : List DataType)
    (frame : Frame) (machine : Machine) : callSite activation site types frame machine =
      match choose activation site types frame machine with
      | .error error => (.failed error, machine)
      | .ok (callee, receiver, args) =>
          enterSite activation site types.length callee receiver args frame machine := by
  unfold callSite choose
  dsimp only
  split
  · cases receiver machine.world.heap site frame.temps <;> rfl
  · rfl

section

variable {α : Type} (watcher : Watcher α) (activation : Activation) (function : Function)
  (nested : Invocation → Frame → Machine → List α)

def operandNotes (slot : Nat) (notes : Frame → Machine → List α) (frame : Frame)
    (machine : Machine) : List α :=
  if slot < frame.temps.length then [] else notes (frame.child slot) machine

def siteNotes (site : CallSite) (types : List DataType) (frame : Frame) (machine : Machine) :
    List α :=
  match choose activation site types frame machine with
  | .ok (.found function kept, receiver, args) =>
      nested ⟨function, receiver, args, some site.span, activation.program⟩
        (frame.child types.length)
        { machine with
          world := machine.world.keepCallee ⟨activation.program, site.offset⟩ kept }
  | .ok (.gone, _, _) | .ok (.notFound _, _, _) | .error _ => []

variable (vars : Variables)

def ownNotes (expr : Expr) (frame : Frame) (machine : Machine) : List α :=
  watcher.evaluated activation.code function vars expr (evalExpr activation vars expr frame machine)

mutual

def exprNotes : Expr → Frame → Machine → List α
  | .literal type span value, frame, machine =>
      ownNotes watcher activation function vars (.literal type span value) frame machine
  | .var type span target, frame, machine =>
      ownNotes watcher activation function vars (.var type span target) frame machine
  | .negate type span inner, frame, machine =>
      operandNotes 0 (exprNotes inner) frame.startEval machine ++
        ownNotes watcher activation function vars (.negate type span inner) frame machine
  | .binary type span operator left right, frame, machine =>
      operandNotes 0 (exprNotes left) frame.startEval machine ++
        (match operand 0 (evalExpr activation vars left) frame.startEval machine with
        | (.done frame, machine) => operandNotes 1 (exprNotes right) frame machine
        | (.suspended _, _) | (.failed _, _) => []) ++
        ownNotes watcher activation function vars (.binary type span operator left right) frame
          machine
  | .call type span site operands, frame, machine =>
      operandsNotes 0 operands frame.startEval machine ++
        (match evalOperands activation vars 0 operands frame.startEval machine with
        | (.done frame, machine) =>
            siteNotes activation nested site (operands.map Expr.type) frame machine
        | (.suspended _, _) | (.failed _, _) => []) ++
        ownNotes watcher activation function vars (.call type span site operands) frame machine

def operandsNotes (slot : Nat) : List Expr → Frame → Machine → List α
  | [], _, _ => []
  | first :: rest, frame, machine =>
      operandNotes slot (exprNotes first) frame machine ++
        match operand slot (evalExpr activation vars first) frame machine with
        | (.done frame, machine) => operandsNotes (slot + 1) rest frame machine
        | (.suspended _, _) | (.failed _, _) => []

end

end

section

variable {α : Type} (watcher : Watcher α) (activation : Activation) (function : Function)
  (nested : Invocation → Frame → Machine → List α)

def valueNotes (expr : Expr) (frame : Frame) (state : RunState) : List α :=
  exprNotes watcher activation function nested state.vars expr frame state.machine

mutual

def stmtNotes : Stmt → Frame → RunState → List α
  | .block _ stmts, frame, state =>
      stmtsNotes 0 stmts { frame with state := .block frame.nextStatement } state
  | .return _ none, _, _ | .declare _ _ _ _ none, _, _ => []
  | .return _ (some expr), frame, state | .declare _ _ _ _ (some expr), frame, state
  | .expr expr, frame, state => valueNotes watcher activation function nested expr frame state
  | .wait _ count, frame, state =>
      match frame.state with
      | .wait _ => []
      | _ => valueNotes watcher activation function nested count frame state
  | .assign _ target expr, frame, state =>
      valueNotes watcher activation function nested expr frame state ++
        match evalExpr activation state.vars expr frame state.machine with
        | (.done _, machine) => watcher.stores function state.vars target machine
        | (.suspended _, _) | (.failed _, _) => []

def stmtsNotes (place : Nat) : List Stmt → Frame → RunState → List α
  | [], _, _ => []
  | stmt :: rest, frame, state =>
      if place < frame.nextStatement then stmtsNotes (place + 1) rest frame state
      else stmtNotes stmt (frame.child place) state ++
        match execStmt activation stmt (frame.child place) state with
        | (.done .next, state) =>
            let passed := { frame.withoutChild place with state := .block (place + 1) }
            stmtsNotes (place + 1) rest passed state
        | (.done (.return _), _) | (.suspended _, _) | (.failed _, _) => []

end

end

end Evaluation

namespace Invocation

section

variable {α : Type} (watcher : Watcher α) (activation : Activation) (invocation : Invocation)
  (nested : Invocation → Frame → Machine → List α)

def bodyNotes (vars : Variables) (frame : Frame) (machine : Machine) : List α :=
  let (allowed, gate) := machine.gate.ask
  if !allowed then []
  else
    let body := frame.child 0
    Evaluation.stmtsNotes watcher activation invocation.function nested 0
      invocation.function.body.stmts { body with state := .block body.nextStatement }
      ⟨vars, { machine with gate }⟩

def guardNotes (vars : Variables) (frame : Frame) (machine : Machine) : List α :=
  let (taken, guards) :=
    machine.world.guards.tryLock (invocation.function.owner.getD "") activation.context
  let machine := { machine with world := { machine.world with guards } }
  if taken then bodyNotes watcher activation invocation nested vars frame machine else []

def instanceNotes (call : Call) (vars : Variables) (frame : Frame) (machine : Machine) : List α :=
  match bindInstance activation.code invocation vars machine.world with
  | .error _ => []
  | .ok (vars, world) =>
      let machine := { machine with world }
      if call.advance.step = .acquireGuard then
        guardNotes watcher activation invocation nested vars frame machine
      else bodyNotes watcher activation invocation nested vars frame machine

def paramsNotes (call : Call) (vars : Variables) (frame : Frame) (machine : Machine) : List α :=
  match invocation.function.params.bind invocation.args vars with
  | (_, some _) => []
  | (vars, none) =>
      let next := call.advance
      if next.step = .bindInstance then
        instanceNotes watcher activation invocation nested next vars frame machine
      else bodyNotes watcher activation invocation nested vars frame machine

def stepsNotes (call : Call) (frame : Frame) (machine : Machine) : List α :=
  match call.step with
  | .bindParams => paramsNotes watcher activation invocation nested call frame.vars frame machine
  | .bindInstance =>
      instanceNotes watcher activation invocation nested call frame.vars frame machine
  | .acquireGuard => guardNotes watcher activation invocation nested frame.vars frame machine
  | .runBody => bodyNotes watcher activation invocation nested frame.vars frame machine

end

def notes {α : Type} (watcher : Watcher α) (code : Code) (context : ContextId) :
    Nat → Invocation → Frame → Machine → List α
  | 0, _, _, _ => []
  | depth + 1, invocation, frame, machine =>
      let activation : Activation :=
        ⟨code, context, invocation.function.program, run code context depth⟩
      let (call, frame) := entered invocation frame
      stepsNotes watcher activation invocation (notes watcher code context depth) call frame machine

end Invocation

section

variable {α : Type} (watcher : Watcher α)

def Engine.notes (engine : Engine) (stack : Stack) (gate : Gate) : List α :=
  match stack.entry with
  | none => []
  | some entry =>
      if (engine.code.programs.get? stack.program).isNone then []
      else match entryCallee engine.code stack entry with
        | .found function _ =>
            Invocation.notes watcher engine.code stack.context engine.code.maxCallDepth
              (entry.invocation function stack.program) stack.root ⟨engine.world, gate⟩
        | .gone | .notFound _ => []

def Engine.startNotes (engine : Engine) (stack : Stack) (entry : EntryCall) (gate : Gate) :
    List α :=
  if stack.isActive then []
  else engine.notes watcher { stack with entry := some entry, root := {}, lastError := none } gate

/-- The stack that an operation drives the call on, with the outcome and with what is noted. -/
def Host.watching (host : Host) : Operation → Option (Driven × List α)
  | .call place name args gate => host.executions[place]?.map fun stack =>
      (host.engine.call stack name args gate,
        host.engine.startNotes watcher stack { name, args } gate)
  | .callMethod place handle name args gate => host.executions[place]?.map fun stack =>
      (host.engine.callMethod stack handle name args gate,
        match host.engine.world.heap.get? handle with
        | none => []
        | some object => host.engine.startNotes watcher stack
            { name, args, receiver := some ⟨handle, object.className⟩ } gate)
  | .resume place gate => host.executions[place]?.map fun stack =>
      (host.engine.resume stack gate, host.engine.notes watcher stack gate)
  | .register _ | .compile .. | .unload _ | .set .. | .newInstance _ | .bindInstance ..
  | .changeHeap _ | .newStack _ | .abort _ | .copy _ | .reload _ => none

end

end ScriptEngine
