import ScriptEngine.Code
import ScriptEngine.World
/-! Making a frame tree that was read back ready to run. Its variables lost their bindings; a call
in it may hold the guard of its class. Restoring follows the body down to what was in progress, as
running it would, and runs nothing. How a nested call is restored is a parameter of the functions
that recurse on the body. -/

namespace ScriptEngine.Restoration

abbrev Restore := Frame → GuardTable → Frame × GuardTable

def onChild (slot : Nat) (restore : Restore) : Restore := fun frame guards =>
  match frame.child? slot with
  | none => (frame, guards)
  | some child =>
      let (child, guards) := restore child guards
      (frame.withChild slot child, guards)

mutual

def restoreExpr (call : Restore) : Expr → Restore
  | .literal .., frame, guards => (frame, guards)
  | .var .., frame, guards => (frame, guards)
  | .negate _ _ inner, frame, guards =>
      match frame.state, frame.temps.length with
      | .eval, 0 => onChild 0 (restoreExpr call inner) frame guards
      | _, _ => (frame, guards)
  | .binary _ _ _ left right, frame, guards =>
      match frame.state, frame.temps.length with
      | .eval, 0 => onChild 0 (restoreExpr call left) frame guards
      | .eval, 1 => onChild 1 (restoreExpr call right) frame guards
      | _, _ => (frame, guards)
  | .call _ _ _ operands, frame, guards =>
      match frame.state with
      | .eval => restoreOperands call 0 operands frame guards
      | _ => (frame, guards)

/-- Restore the operand at the number of temporaries, the operands starting at `place`; behind the
last of them stands the call. -/
def restoreOperands (call : Restore) (place : Nat) : List Expr → Restore
  | [], frame, guards => onChild frame.temps.length call frame guards
  | first :: rest, frame, guards =>
      if place = frame.temps.length then onChild place (restoreExpr call first) frame guards
      else restoreOperands call (place + 1) rest frame guards

end

mutual

def restoreStmt (call : Restore) : Stmt → Restore
  | .block _ stmts, frame, guards => restoreStmts call 0 stmts frame guards
  | .return _ none, frame, guards => (frame, guards)
  | .return _ (some expr), frame, guards => restoreExpr call expr frame guards
  | .wait _ count, frame, guards => restoreExpr call count frame guards
  | .declare _ _ _ _ none, frame, guards => (frame, guards)
  | .declare _ _ _ _ (some expr), frame, guards => restoreExpr call expr frame guards
  | .assign _ _ expr, frame, guards => restoreExpr call expr frame guards
  | .expr expr, frame, guards => restoreExpr call expr frame guards

def restoreStmts (call : Restore) (place : Nat) : List Stmt → Restore
  | [], frame, guards => (frame, guards)
  | first :: rest, frame, guards =>
      if frame.state = .block place then onChild place (restoreStmt call first) frame guards
      else restoreStmts call (place + 1) rest frame guards

end

/-- Bind a variable by its name: a parameter or local of the function, or its object. Another
variable keeps the binding it has. -/
def rebind (function : Function) (var : Variable) : Variable :=
  match function.localId? var.name, Reserved.ofName? var.name with
  | some id, _ => var.bind (.var id)
  | none, some name => if function.owner.isSome then var.bind (.reserved name) else var
  | none, none => var

def retakeGuard (context : ContextId) (function : Function) (call : Call) (guards : GuardTable) :
    GuardTable :=
  -- Where somebody else holds the guard the context queues up, and the call goes on without it.
  match function.owner with
  | some owner => if call.holdsGuard then (guards.tryLock owner context).2 else guards
  | none => guards

def restoreCall (code : Code) (context : ContextId) : Nat → Restore
  | 0, frame, guards => (frame, guards)
  | levels + 1, frame, guards =>
      match frame.call? with
      | none => (frame, guards)
      | some call =>
          match code.programs.function? call.program call.function with
          | none => (frame, guards)
          | some function =>
              let bound := { frame with vars := frame.vars.map (rebind function) }
              let guards := retakeGuard context function call guards
              -- In front of its body a call has no children.
              if call.step = .runBody then
                let body := restoreStmts (restoreCall code context levels) 0 function.body.stmts
                onChild 0 body bound guards
              else (bound, guards)

def restore (code : Code) (context : ContextId) : Restore := fun frame guards =>
  -- A frame tree holds no more nested calls than it is high.
  restoreCall code context frame.height frame guards

end ScriptEngine.Restoration
