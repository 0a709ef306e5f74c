import ScriptEngine.Engine
/-! Evaluating a call in one go. Nothing here has a frame: operands are values, a nested call is a
nested evaluation, no gate is asked, a guard is taken without a look at who holds it, and a wait
yields not once. How often it would have yielded is counted instead.

This is what driving a call by yields and resumes is measured against. -/

namespace ScriptEngine.Direct

/-- Where an evaluation stands: the world, and the yields its waits asked for so far. -/
structure Course where
  world : World
  yields : Nat := 0

structure Ending (α : Type) where
  result : Except RuntimeError α
  course : Course

namespace Ending

variable {α β : Type}

def pure (value : α) (course : Course) : Ending α := ⟨.ok value, course⟩

def fail (error : RuntimeError) (course : Course) : Ending α := ⟨.error error, course⟩

def andThen (first : Ending α) (next : α → Course → Ending β) : Ending β :=
  match first.result with
  | .ok value => next value first.course
  | .error error => ⟨.error error, first.course⟩

@[simp] theorem andThen_ok (value : α) (course : Course) (next : α → Course → Ending β) :
    andThen ⟨.ok value, course⟩ next = next value course := rfl

@[simp] theorem andThen_error (error : RuntimeError) (course : Course)
    (next : α → Course → Ending β) :
    andThen ⟨.error error, course⟩ next = ⟨.error error, course⟩ := rfl

@[simp] theorem andThen_pure (value : α) (course : Course) (next : α → Course → Ending β) :
    (pure value course).andThen next = next value course := rfl

theorem andThen_assoc {γ : Type} (first : Ending α) (next : α → Course → Ending β)
    (last : β → Course → Ending γ) :
    (first.andThen next).andThen last =
      first.andThen fun value course => (next value course).andThen last := by
  obtain ⟨result, course⟩ := first
  cases result <;> rfl

end Ending

structure Scene where
  code : Code
  context : ContextId
  program : ProgramId
  call : Invocation → Course → Ending Value

def enter (scene : Scene) (site : CallSite) (receiver : Option Handle) (args : Variables)
    (resolved : Except CompileCause Function × Option FunctionId) (course : Course) :
    Ending Value :=
  match resolved with
  | (.error _, _) => .fail ⟨.undefinedCall, some site.span⟩ course
  | (.ok function, kept) =>
      let world := course.world.keepCallee ⟨scene.program, site.offset⟩ kept
      scene.call ⟨function, receiver, args, some site.span, scene.program⟩ { course with world }

def callSite (scene : Scene) (site : CallSite) (types : List DataType) (operands : List Value)
    (course : Course) : Ending Value :=
  let kept := some (course.world.callee ⟨scene.program, site.offset⟩ site.callee)
  if site.hasReceiver then
    let types := types.drop 1
    match Evaluation.receiver course.world.heap site operands with
    | .error error => .fail error course
    | .ok (handle, className) =>
        enter scene site (some handle) (Evaluation.arguments types (operands.drop 1))
          (scene.code.resolveMethod className kept site.name types) course
  else
    enter scene site none (Evaluation.arguments types operands)
      (scene.code.resolveCall scene.program kept site.name types) course

mutual

def expr (scene : Scene) (vars : Variables) : Expr → Course → Ending Value
  | .literal _ _ value, course => .pure value course
  | .var _ span target, course =>
      ⟨Evaluation.readVariable course.world.heap vars target span, course⟩
  | .negate type span inner, course =>
      (expr scene vars inner course).andThen fun value course =>
        ⟨Evaluation.negate value type span, course⟩
  | .binary type span operator left right, course =>
      (expr scene vars left course).andThen fun first course =>
        (expr scene vars right course).andThen fun second course =>
          ⟨Evaluation.operate operator left.type right.type type [first, second] span, course⟩
  | .call _ _ site operands, course =>
      (exprs scene vars operands course).andThen fun values course =>
        callSite scene site (operands.map Expr.type) values course

def exprs (scene : Scene) (vars : Variables) : List Expr → Course → Ending (List Value)
  | [], course => .pure [] course
  | first :: rest, course =>
      (expr scene vars first course).andThen fun value course =>
        (exprs scene vars rest course).andThen fun values course => .pure (value :: values) course

end

def passTime (count : Nat) (course : Course) : Course :=
  { course with yields := course.yields + count }

abbrev Executed := Ending (Completion × Variables)

def declare (vars : Variables) (id : VarId) (var : Variable) (course : Course) : Executed :=
  .pure (.next, vars ++ [var.bind (.var id)]) course

def assign (vars : Variables) (target : Target) (span : Span) (value : Value) (course : Course) :
    Executed :=
  match Evaluation.writeVariable course.world.heap vars target value span with
  | .ok (heap, vars) => .pure (.next, vars) { course with world := { course.world with heap } }
  | .error error => .fail error course

mutual

def stmt (scene : Scene) (vars : Variables) : Stmt → Course → Executed
  | .block _ body, course => stmts scene vars body course
  | .return _ none, course => .pure (.return .void, vars) course
  | .return _ (some value), course =>
      (expr scene vars value course).andThen fun value => .pure (.return value, vars)
  | .wait _ count, course =>
      (expr scene vars count course).andThen fun value course =>
        .pure (.next, vars) (passTime value.waitCount course)
  | .declare _ id name type none, course => declare vars id (.new name type) course
  | .declare span id name type (some init), course =>
      (expr scene vars init course).andThen fun value course =>
        match Evaluation.convert value type span with
        | .ok stored => declare vars id (.holding name type stored) course
        | .error error => .fail error course
  | .assign span target value, course =>
      (expr scene vars value course).andThen (assign vars target span)
  | .expr value, course =>
      (expr scene vars value course).andThen fun _ => .pure (.next, vars)

def stmts (scene : Scene) (vars : Variables) : List Stmt → Course → Executed
  | [], course => .pure (.next, vars) course
  | first :: rest, course =>
      (stmt scene vars first course).andThen fun executed course =>
        match executed with
        | (.next, vars) => stmts scene vars rest course
        | (.return value, vars) => .pure (.return value, vars) course

end

def guardOf (function : Function) : Option String :=
  if function.signature.callKind.isSynchronized then function.owner else none

def Course.withGuards (course : Course) (guards : GuardTable) : Course :=
  { course with world := { course.world with guards } }

def lock (context : ContextId) (owner : Option String) (course : Course) : Course :=
  match owner with
  | some className =>
      course.withGuards (course.world.guards.tryLock className context).2
  | none => course

def unlock (context : ContextId) (owner : Option String) (course : Course) : Course :=
  match owner with
  | some className => course.withGuards (course.world.guards.unlock className context).2
  | none => course

def body (scene : Scene) (function : Function) (vars : Variables) (course : Course) :
    Ending Value :=
  let ended := (stmts scene vars function.body.stmts course).andThen fun executed course =>
    ⟨Invocation.result function executed.1, course⟩
  { ended with course := unlock scene.context (guardOf function) ended.course }

def invoke (scene : Scene) (invocation : Invocation) (course : Course) : Ending Value :=
  let function := invocation.function
  match function.params.bind invocation.args [] with
  | (_, some error) => .fail error course
  | (vars, none) =>
      match Invocation.bindInstance scene.code invocation vars course.world with
      | .error error => .fail error course
      | .ok (vars, world) =>
          body scene function vars (lock scene.context (guardOf function) { course with world })

def run (code : Code) (context : ContextId) : Nat → Invocation → Course → Ending Value
  | 0, invocation, course =>
      let overflow : RuntimeError := ⟨.stackOverflow, none⟩
      .fail (overflow.positionedAt invocation.site) course
  | depth + 1, invocation, course =>
      let scene : Scene := ⟨code, context, invocation.function.program, run code context depth⟩
      let ended := invoke scene invocation course
      { ended with result := ended.result.mapError (Invocation.reportedError invocation) }

def outcome : Except RuntimeError Value → Outcome
  | .ok value => .completed value
  | .error error => .failed error

def entryFunction (code : Code) (stack : Stack) (entry : EntryCall) :
    Except CompileCause Function × Option FunctionId :=
  let types := entry.args.map Variable.type
  match entry.receiver with
  | none => code.resolveCall stack.program none entry.name types
  | some receiver => code.resolveMethod receiver.className none entry.name types

/-- Evaluate a call that the host makes on a stack. -/
def hostCall (engine : Engine) (stack : Stack) (entry : EntryCall) : Outcome × Course :=
  match (entryFunction engine.code stack entry).1 with
  | .error cause => (.notFound cause, ⟨engine.world, 0⟩)
  | .ok function =>
      let invocation : Invocation :=
        ⟨function, entry.receiver.map Receiver.handle, entry.args, none, stack.program⟩
      let ended :=
        run engine.code stack.context engine.code.maxCallDepth invocation ⟨engine.world, 0⟩
      (outcome ended.result, ended.course)

end ScriptEngine.Direct
