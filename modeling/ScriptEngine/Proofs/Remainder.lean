import ScriptEngine.Proofs.Direct
/-! What is left of a call that has frames, evaluated in one go: everything a frame records as done is
passed over, and the rest is evaluated without a yield. From fresh frames this is the evaluation of
`Direct`; from the frames of a suspended call it is what the call has still to do. -/

namespace ScriptEngine.Remainder

open Direct (Course Ending Executed)

structure Scene where
  code : Code
  context : ContextId
  program : ProgramId
  call : Invocation → Frame → Course → Ending Value

def operand (slot : Nat) (evaluate : Frame → Course → Ending Value) (frame : Frame)
    (course : Course) : Ending Frame :=
  if slot < frame.temps.length then .pure frame course
  else (evaluate (frame.child slot) course).andThen fun value course =>
    let finished := frame.withoutChild slot
    .pure { finished with temps := finished.temps ++ [value] } course

def enter (scene : Scene) (site : CallSite) (slot : Nat) (callee : Evaluation.Callee)
    (receiver : Option Handle) (args : Variables) (frame : Frame) (course : Course) :
    Ending Value :=
  match callee with
  | .gone => .fail ⟨.unknownFunction, none⟩ course
  | .notFound _ => .fail ⟨.undefinedCall, some site.span⟩ course
  | .found function kept =>
      let world := course.world.keepCallee ⟨scene.program, site.offset⟩ kept
      scene.call ⟨function, receiver, args, some site.span, scene.program⟩ (frame.child slot)
        { course with world }

def callSite (scene : Scene) (site : CallSite) (types : List DataType) (frame : Frame)
    (course : Course) : Ending Value :=
  let slot := types.length
  let kept := some (course.world.callee ⟨scene.program, site.offset⟩ site.callee)
  if site.hasReceiver then
    let types := types.drop 1
    match Evaluation.receiver course.world.heap site frame.temps with
    | .error error => .fail error course
    | .ok (handle, className) =>
        let resolved := scene.code.resolveMethod className kept site.name types
        enter scene site slot (Evaluation.callee scene.code (frame.child slot) none resolved)
          (some handle) (Evaluation.arguments types (frame.temps.drop 1)) frame course
  else
    let resolved := scene.code.resolveCall scene.program kept site.name types
    enter scene site slot (Evaluation.callee scene.code (frame.child slot) none resolved)
      none (Evaluation.arguments types frame.temps) frame course

mutual

def expr (scene : Scene) (vars : Variables) : Expr → Frame → Course → Ending Value
  | .literal _ _ value, _, course => .pure value course
  | .var _ span target, _, course =>
      ⟨Evaluation.readVariable course.world.heap vars target span, course⟩
  | .negate type span inner, frame, course =>
      (operand 0 (expr scene vars inner) frame.startEval course).andThen fun frame course =>
        ⟨Evaluation.negate (frame.temps.getLast?.getD .void) type span, course⟩
  | .binary type span operator left right, frame, course =>
      (operand 0 (expr scene vars left) frame.startEval course).andThen fun frame course =>
        (operand 1 (expr scene vars right) frame course).andThen fun frame course =>
          ⟨Evaluation.operate operator left.type right.type type frame.temps span, course⟩
  | .call _ _ site operands, frame, course =>
      (exprs scene vars 0 operands frame.startEval course).andThen fun frame course =>
        callSite scene site (operands.map Expr.type) frame course

def exprs (scene : Scene) (vars : Variables) (slot : Nat) :
    List Expr → Frame → Course → Ending Frame
  | [], frame, course => .pure frame course
  | first :: rest, frame, course =>
      (operand slot (expr scene vars first) frame course).andThen fun frame course =>
        exprs scene vars (slot + 1) rest frame course

end

mutual

def stmt (scene : Scene) : Stmt → Frame → Variables → Course → Executed
  | .block _ body, frame, vars, course =>
      stmts scene 0 body { frame with state := .block frame.nextStatement } vars course
  | .return _ none, _, vars, course => .pure (.return .void, vars) course
  | .return _ (some value), frame, vars, course =>
      (expr scene vars value frame course).andThen fun value => .pure (.return value, vars)
  | .wait _ count, frame, vars, course =>
      match frame.state with
      | .wait remaining => .pure (.next, vars) (Direct.passTime remaining course)
      | _ =>
          (expr scene vars count frame course).andThen fun value course =>
            .pure (.next, vars) (Direct.passTime value.waitCount course)
  | .declare _ id name type none, _, vars, course =>
      Direct.declare vars id (.new name type) course
  | .declare span id name type (some init), frame, vars, course =>
      (expr scene vars init frame course).andThen fun value course =>
        match Evaluation.convert value type span with
        | .ok stored => Direct.declare vars id (.holding name type stored) course
        | .error error => .fail error course
  | .assign span target value, frame, vars, course =>
      (expr scene vars value frame course).andThen (Direct.assign vars target span)
  | .expr value, frame, vars, course =>
      (expr scene vars value frame course).andThen fun _ => .pure (.next, vars)

/-- Run the statements of a block, the first of them at `place`, from the one the frame is at. -/
def stmts (scene : Scene) (place : Nat) : List Stmt → Frame → Variables → Course → Executed
  | [], _, vars, course => .pure (.next, vars) course
  | first :: rest, frame, vars, course =>
      if place < frame.nextStatement then stmts scene (place + 1) rest frame vars course
      else (stmt scene first (frame.child place) vars course).andThen fun executed course =>
        match executed with
        | (.next, vars) =>
            stmts scene (place + 1) rest
              { frame.withoutChild place with state := .block (place + 1) } vars course
        | (.return value, vars) => .pure (.return value, vars) course

end

section

variable (scene : Scene) (invocation : Invocation)

def bodyStep (call : Call) (vars : Variables) (frame : Frame) (course : Course) : Ending Value :=
  let inner := frame.child 0
  let ended := (stmts scene 0 invocation.function.body.stmts
    { inner with state := .block inner.nextStatement } vars course).andThen fun executed course =>
      ⟨Invocation.result invocation.function executed.1, course⟩
  { ended with course := Direct.unlock scene.context call.heldGuard? ended.course }

def guardStep (call : Call) (vars : Variables) (frame : Frame) (course : Course) : Ending Value :=
  bodyStep scene invocation call.advance vars frame
    (Direct.lock scene.context (some (invocation.function.owner.getD "")) course)

def instanceStep (call : Call) (vars : Variables) (frame : Frame) (course : Course) :
    Ending Value :=
  match Invocation.bindInstance scene.code invocation vars course.world with
  | .error error => .fail error course
  | .ok (vars, world) =>
      let next := call.advance
      if next.step = .acquireGuard then
        guardStep scene invocation next vars frame { course with world }
      else bodyStep scene invocation next vars frame { course with world }

def paramsStep (call : Call) (vars : Variables) (frame : Frame) (course : Course) : Ending Value :=
  match invocation.function.params.bind invocation.args vars with
  | (_, some error) => .fail error course
  | (vars, none) =>
      let next := call.advance
      if next.step = .bindInstance then instanceStep scene invocation next vars frame course
      else bodyStep scene invocation next vars frame course

def steps (call : Call) (frame : Frame) (course : Course) : Ending Value :=
  match call.step with
  | .bindParams => paramsStep scene invocation call frame.vars frame course
  | .bindInstance => instanceStep scene invocation call frame.vars frame course
  | .acquireGuard => guardStep scene invocation call frame.vars frame course
  | .runBody => bodyStep scene invocation call frame.vars frame course

end

/-- Go on with a call, or evaluate one that starts, with `depth` nested calls allowed. -/
def run (code : Code) (context : ContextId) : Nat → Invocation → Frame → Course → Ending Value
  | 0, invocation, _, course =>
      let overflow : RuntimeError := ⟨.stackOverflow, none⟩
      .fail (overflow.positionedAt invocation.site) course
  | depth + 1, invocation, frame, course =>
      let scene : Scene := ⟨code, context, invocation.function.program, run code context depth⟩
      let (call, frame) := Invocation.entered invocation frame
      let ended := steps scene invocation call frame course
      { ended with result := ended.result.mapError (Invocation.reportedError invocation) }

section

variable {slot : Nat} {frame : Frame}

theorem operand_passed {evaluate : Frame → Course → Ending Value}
    (bound : slot < frame.temps.length) : operand slot evaluate frame = .pure frame := by
  funext course
  rw [operand, if_pos bound]

theorem exprs_passed {scene : Scene} {vars : Variables} {operands : List Expr} :
    ∀ {slot : Nat}, slot + operands.length ≤ frame.temps.length → ∀ course,
      exprs scene vars slot operands frame course = .pure frame course := by
  induction operands with
  | nil =>
      intro slot _ course
      rw [exprs]
  | cons first rest ih =>
      intro slot bound course
      simp only [List.length_cons] at bound
      rw [exprs, operand_passed (by omega), Ending.andThen_pure]
      exact ih (by omega) course

end

end ScriptEngine.Remainder
