import ScriptEngine.Code
import ScriptEngine.Number.Layout
import ScriptEngine.World
/-! Running bodies. A body runs over a frame tree of its own shape: what has a finished frame or a
temporary is passed over, what has a frame goes on with it, and everything else starts on a fresh
one. A yield hands back the frames to go on with; an end hands back a value and leaves no frame.

How a call is entered is a parameter here, so that these functions recurse on the body alone. -/

namespace ScriptEngine

/-- How far something got: to its end, to a yield with the frame to go on with, or to a failure. -/
inductive Progress (α : Type) where
  | done (value : α)
  | suspended (frame : Frame)
  | failed (error : RuntimeError)

def Progress.ofExcept {α : Type} : Except RuntimeError α → Progress α
  | .ok value => .done value
  | .error error => .failed error

/-- A call that is about to start or to go on. -/
structure Invocation where
  function : Function
  receiver : Option Handle
  args : Variables
  /-- Where the call stands; the host's calls stand nowhere. -/
  site : Option Span
  /-- The program the call is made from. -/
  caller : ProgramId

/-- The running call as its body sees it. -/
structure Activation where
  code : Code
  context : ContextId
  program : ProgramId
  call : Invocation → Frame → Machine → Progress Value × Machine

/-- The variables of the running call and what it shares with all others. -/
structure RunState where
  vars : Variables
  machine : Machine

/-- What a statement that ended leads to. -/
inductive Completion where
  | next
  | return (value : Value)

namespace Evaluation

def readVariable (heap : Heap) (vars : Variables) (target : Target) (span : Span) :
    Except RuntimeError Value :=
  let found : Except RuntimeError (Option Variable) := match target with
    | .local id => .ok (vars.find? (.var id))
    | .reserved name => .ok (vars.find? (.reserved name))
    | .member name =>
        match vars.this? with
        | none => .error ⟨.missingInstance, some span⟩
        | some handle =>
            match heap.get? handle with
            | none => .error ⟨.staleObject, some span⟩
            | some object => .ok (object.field? name)
  match found with
  | .error error => .error error
  | .ok none => .error ⟨.unknownVariable, some span⟩
  | .ok (some var) => .ok var.value

def convert (value : Value) (type : DataType) (span : Span) : Except RuntimeError Value :=
  match value.convert? type with
  | some converted => .ok converted
  | none => .error ⟨.typeMismatch, some span⟩

def writeVariable (heap : Heap) (vars : Variables) (target : Target) (value : Value)
    (span : Span) : Except RuntimeError (Heap × Variables) :=
  match target with
  | .reserved _ => .error ⟨.typeMismatch, some span⟩
  | .local id =>
      match vars.find? (.var id) with
      | none => .error ⟨.unknownVariable, some span⟩
      | some var => do
          let stored ← convert value var.type span
          return (heap, vars.update (.var id) fun var => var.set stored)
  | .member name =>
      match vars.this? with
      | none => .error ⟨.missingInstance, some span⟩
      | some handle =>
          match heap.get? handle with
          | none => .error ⟨.staleObject, some span⟩
          | some object =>
              match object.field? name with
              | none => .error ⟨.unknownVariable, some span⟩
              | some field => do
                  let stored ← convert value field.type span
                  return (heap.update handle fun object =>
                    object.updateField name fun field => field.set stored, vars)

def numberText : Layout := ⟨none, false, .up, "NaN", "inf"⟩

def valueText (value : Value) (type : DataType) : String :=
  match value with
  | .float number =>
      if type.kind = .float then numberText.writeSingle number else numberText.writeDouble number
  | .int number => toString number.toInt
  | .bool true => "true"
  | .bool false => "false"
  | .string text => text
  | .null => "null"
  | .object _ => type.text
  | .void => ""

def negate (value : Value) (type : DataType) (span : Span) : Except RuntimeError Value :=
  match value with
  | .int number => convert (.int (-number)) type span
  | .float number => convert (.float (-number)) type span
  | _ => .error ⟨.typeMismatch, some span⟩

def computeInt (operator : Operator) (left right : Int64) (span : Span) :
    Except RuntimeError Int64 :=
  match operator with
  | .add => .ok (left + right)
  | .sub => .ok (left - right)
  | .mul => .ok (left * right)
  | .div => if right = 0 then .error ⟨.divisionByZero, some span⟩ else .ok (left / right)

def computeFloat (operator : Operator) (left right : Float) (span : Span) :
    Except RuntimeError Float :=
  match operator with
  | .add => .ok (left + right)
  | .sub => .ok (left - right)
  | .mul => .ok (left * right)
  | .div => if right == 0.0 then .error ⟨.divisionByZero, some span⟩ else .ok (left / right)

def compute (operator : Operator) (left right : Value) (type : DataType) (span : Span) :
    Except RuntimeError Value :=
  if type.kind.isIntegral then
    match left.asInt?, right.asInt? with
    | some left, some right => do convert (.int (← computeInt operator left right span)) type span
    | _, _ => .error ⟨.typeMismatch, some span⟩
  else
    match left.asFloat?, right.asFloat? with
    | some left, some right => do
        convert (.float (← computeFloat operator left right span)) type span
    | _, _ => .error ⟨.typeMismatch, some span⟩

def operate (operator : Operator) (leftType rightType type : DataType) (temps : List Value)
    (span : Span) : Except RuntimeError Value :=
  let right := temps.getLast?.getD .void
  let left := temps.dropLast.getLast?.getD .void
  if type.kind = .string then .ok (.string (valueText left leftType ++ valueText right rightType))
  else compute operator left right type span

/-- Compute one operand on the child in its slot and keep its value as a temporary; an operand that
has its temporary is passed over. -/
def operand (slot : Nat) (evaluate : Frame → Machine → Progress Value × Machine) (frame : Frame)
    (machine : Machine) : Progress Frame × Machine :=
  if slot < frame.temps.length then (.done frame, machine)
  else match evaluate (frame.child slot) machine with
    | (.done value, machine) =>
        let finished := frame.withoutChild slot
        (.done { finished with temps := finished.temps ++ [value] }, machine)
    | (.suspended child, machine) => (.suspended (frame.withChild slot child), machine)
    | (.failed error, machine) => (.failed error, machine)

/-- The function a call goes on with, or what was found for one that starts. -/
inductive Callee where
  | found (function : Function) (kept : Option FunctionId)
  /-- A suspended call whose function is not loaded any more. -/
  | gone
  | notFound (cause : CompileCause)

/-- A frame that holds a call goes on with its function, and with what was kept for it; a fresh one
takes what was resolved. -/
def callee (code : Code) (frame : Frame) (kept : Option FunctionId)
    (resolved : Except CompileCause Function × Option FunctionId) : Callee :=
  match frame.call? with
  | some call =>
      match code.programs.function? call.program call.function with
      | some function => .found function kept
      | none => .gone
  | none =>
      match resolved with
      | (.ok function, kept) => .found function kept
      | (.error cause, _) => .notFound cause

/-- The class a call on a receiver looks in, and the receiver. -/
def receiver (heap : Heap) (site : CallSite) (temps : List Value) :
    Except RuntimeError (Handle × String) :=
  match temps.head?.bind Value.asObject? with
  | none => .error ⟨.nullReference, some site.span⟩
  | some handle =>
      match site.dispatch with
      | .ofClass className => .ok (handle, className)
      | _ =>
          match heap.get? handle with
          | some object => .ok (handle, object.className)
          | none => .error ⟨.staleObject, some site.span⟩

/-- The arguments of a call: the temporaries with the types of their expressions. -/
def arguments (types : List DataType) (temps : List Value) : Variables :=
  List.zipWith (fun type value => Variable.holding "" type value) types temps

/-- Start or continue the call of a site on the child in `slot`, its operands all computed. -/
def enterSite (activation : Activation) (site : CallSite) (slot : Nat)
    (callee : Callee) (receiver : Option Handle) (args : Variables) (frame : Frame)
    (machine : Machine) : Progress Value × Machine :=
  match callee with
  | .gone => (.failed ⟨.unknownFunction, none⟩, machine)
  | .notFound _ => (.failed ⟨.undefinedCall, some site.span⟩, machine)
  | .found function kept =>
      let kept := machine.world.keepCallee ⟨activation.program, site.offset⟩ kept
      let invocation : Invocation :=
        ⟨function, receiver, args, some site.span, activation.program⟩
      match activation.call invocation (frame.child slot) { machine with world := kept } with
      | (.suspended child, machine) => (.suspended (frame.withChild slot child), machine)
      | ended => ended

/-- Call the function of a site whose operands, of the given types, are the temporaries. Only a call
that starts is looked up, so only then the site has an identity to keep. -/
def callSite (activation : Activation) (site : CallSite) (types : List DataType) (frame : Frame)
    (machine : Machine) : Progress Value × Machine :=
  let slot := types.length
  let kept := some (machine.world.callee ⟨activation.program, site.offset⟩ site.callee)
  if site.hasReceiver then
    let types := types.drop 1
    match receiver machine.world.heap site frame.temps with
    | .error error => (.failed error, machine)
    | .ok (handle, className) =>
        let resolved := activation.code.resolveMethod className kept site.name types
        enterSite activation site slot (callee activation.code (frame.child slot) none resolved)
          (some handle) (arguments types (frame.temps.drop 1)) frame machine
  else
    let resolved := activation.code.resolveCall activation.program kept site.name types
    enterSite activation site slot (callee activation.code (frame.child slot) none resolved)
      none (arguments types frame.temps) frame machine

mutual

def evalExpr (activation : Activation) (vars : Variables) :
    Expr → Frame → Machine → Progress Value × Machine
  | .literal _ _ value, _, machine => (.done value, machine)
  | .var _ span target, _, machine =>
      (.ofExcept (readVariable machine.world.heap vars target span), machine)
  | .negate type span inner, frame, machine =>
      match operand 0 (evalExpr activation vars inner) frame.startEval machine with
      | (.done frame, machine) =>
          (.ofExcept (negate (frame.temps.getLast?.getD .void) type span), machine)
      | (.suspended frame, machine) => (.suspended frame, machine)
      | (.failed error, machine) => (.failed error, machine)
  | .binary type span operator left right, frame, machine =>
      match operand 0 (evalExpr activation vars left) frame.startEval machine with
      | (.done frame, machine) =>
          match operand 1 (evalExpr activation vars right) frame machine with
          | (.done frame, machine) =>
              (.ofExcept (operate operator left.type right.type type frame.temps span), machine)
          | (.suspended frame, machine) => (.suspended frame, machine)
          | (.failed error, machine) => (.failed error, machine)
      | (.suspended frame, machine) => (.suspended frame, machine)
      | (.failed error, machine) => (.failed error, machine)
  | .call _ _ site operands, frame, machine =>
      match evalOperands activation vars 0 operands frame.startEval machine with
      | (.done frame, machine) =>
          callSite activation site (operands.map Expr.type) frame machine
      | (.suspended frame, machine) => (.suspended frame, machine)
      | (.failed error, machine) => (.failed error, machine)

def evalOperands (activation : Activation) (vars : Variables) (slot : Nat) :
    List Expr → Frame → Machine → Progress Frame × Machine
  | [], frame, machine => (.done frame, machine)
  | first :: rest, frame, machine =>
      match operand slot (evalExpr activation vars first) frame machine with
      | (.done frame, machine) => evalOperands activation vars (slot + 1) rest frame machine
      | ended => ended

end

def evalThen (activation : Activation) (expr : Expr) (frame : Frame) (state : RunState)
    (continueWith : Value → RunState → Progress Completion × RunState) :
    Progress Completion × RunState :=
  match evalExpr activation state.vars expr frame state.machine with
  | (.done value, machine) => continueWith value { state with machine }
  | (.suspended frame, machine) => (.suspended frame, { state with machine })
  | (.failed error, machine) => (.failed error, { state with machine })

def waitStep (frame : Frame) (state : RunState) : Nat → Progress Completion × RunState
  | 0 => (.done .next, state)
  | remaining + 1 => (.suspended { frame with state := .wait remaining }, state)

def declare (id : VarId) (var : Variable) (state : RunState) : Progress Completion × RunState :=
  (.done .next, { state with vars := state.vars ++ [var.bind (.var id)] })

def assign (target : Target) (span : Span) (value : Value) (state : RunState) :
    Progress Completion × RunState :=
  match writeVariable state.machine.world.heap state.vars target value span with
  | .ok (heap, vars) => (.done .next, ⟨vars, state.machine.withHeap heap⟩)
  | .error error => (.failed error, state)

mutual

def execStmt (activation : Activation) :
    Stmt → Frame → RunState → Progress Completion × RunState
  | .block _ stmts, frame, state =>
      execStmts activation 0 stmts { frame with state := .block frame.nextStatement } state
  | .return _ none, _, state => (.done (.return .void), state)
  | .return _ (some expr), frame, state =>
      evalThen activation expr frame state fun value state => (.done (.return value), state)
  | .wait _ count, frame, state =>
      match frame.state with
      | .wait remaining => waitStep frame state remaining
      | _ =>
          evalThen activation count frame state fun value state =>
            waitStep frame.clearProgress state value.waitCount
  | .declare _ id name type none, _, state => declare id (.new name type) state
  | .declare span id name type (some expr), frame, state =>
      evalThen activation expr frame state fun value state =>
        match convert value type span with
        | .ok stored => declare id (.holding name type stored) state
        | .error error => (.failed error, state)
  | .assign span target expr, frame, state =>
      evalThen activation expr frame state fun value state => assign target span value state
  | .expr expr, frame, state =>
      evalThen activation expr frame state fun _ state => (.done .next, state)

def execStmts (activation : Activation) (place : Nat) :
    List Stmt → Frame → RunState → Progress Completion × RunState
  | [], _, state => (.done .next, state)
  | stmt :: rest, frame, state =>
      if place < frame.nextStatement then execStmts activation (place + 1) rest frame state
      else match execStmt activation stmt (frame.child place) state with
        | (.done .next, state) =>
            let passed := { frame.withoutChild place with state := .block (place + 1) }
            execStmts activation (place + 1) rest passed state
        | (.suspended child, state) => (.suspended (frame.withChild place child), state)
        | ended => ended

end

def execBlock (activation : Activation) (stmts : List Stmt) (frame : Frame) (state : RunState) :
    Progress Completion × RunState :=
  execStmts activation 0 stmts { frame with state := .block frame.nextStatement } state

end Evaluation

end ScriptEngine
