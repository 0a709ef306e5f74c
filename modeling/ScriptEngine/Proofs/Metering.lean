import ScriptEngine.Proofs.Nesting
import ScriptEngine.Proofs.Watching
/-! Running code with a meter. The meter counts the calls that were entered and not left, which is
all that keeps calls from nesting without bound: whether one more is entered is asked of it alone.
Every evaluation is given what it was begun within, and comes to nothing at all unless it has less
before it: less calls that may nest in it, or as many and less of a body. -/

namespace ScriptEngine

structure Rank where
  calls : Nat
  size : Nat

def Rank.Below (rank within : Rank) : Prop :=
  rank.calls < within.calls ∨ rank.calls = within.calls ∧ rank.size < within.size

instance (rank within : Rank) : Decidable (rank.Below within) :=
  inferInstanceAs (Decidable (_ ∨ _))

structure Meter where
  /-- The calls that were entered and not left. -/
  depth : Nat := 0
  /-- The evaluations that were begun. -/
  steps : Nat := 0
  /-- For each call that was to be entered how many were entered around it, the latest first. -/
  attempts : List Nat := []
  /-- For each call that was entered how many were entered around it, the latest first. -/
  entries : List Nat := []

/-- What a run with a meter comes to, unless something nested in it was not below it. -/
abbrev Metered (α : Type) := Option (α × Meter)

namespace CallStep

def left : CallStep → Nat
  | .bindParams => 3
  | .bindInstance => 2
  | .acquireGuard => 1
  | .runBody => 0

theorem left_next (kind : CallKind) {step : CallStep} (more : step ≠ .runBody) :
    (step.next kind).left < step.left := by
  cases step with
  | bindParams =>
      simp only [next]
      split <;> decide
  | bindInstance =>
      simp only [next]
      split <;> decide
  | acquireGuard => exact Nat.zero_lt_one
  | runBody => exact absurd rfl more

end CallStep

namespace Metered

/-- Where the steps of a call lead that come before its body: it stops there, or its body is next. -/
inductive Prepared where
  | stopped (ended : Progress Value × Machine)
  | ready (call : Call) (vars : Variables) (machine : Machine)

section

variable (code : Code) (context : ContextId)

/-- The step a call is at, if that is not its body: how it stops there, or what it leads to. -/
def step (invocation : Invocation) (call : Call) (vars : Variables) (frame : Frame)
    (machine : Machine) : Except (Progress Value × Machine) (Variables × Machine) :=
  match call.step with
  | .bindParams =>
      match invocation.function.params.bind invocation.args vars with
      | (_, some error) => .error (.failed error, machine)
      | (vars, none) => .ok (vars, machine)
  | .bindInstance =>
      match Invocation.bindInstance code invocation vars machine.world with
      | .error error => .error (.failed error, machine)
      | .ok (vars, world) => .ok (vars, { machine with world })
  | .acquireGuard =>
      let (taken, guards) :=
        machine.world.guards.tryLock (invocation.function.owner.getD "") context
      let machine := { machine with world := { machine.world with guards } }
      if taken then .ok (vars, machine)
      else .error (.suspended { frame with state := .call call, vars }, machine)
  | .runBody => .ok (vars, machine)

def advance (invocation : Invocation) (call : Call) (vars : Variables) (frame : Frame)
    (machine : Machine) : Prepared :=
  if call.step = .runBody then .ready call vars machine
  else match step code context invocation call vars frame machine with
    | .error ended => .stopped ended
    | .ok (vars, machine) => advance invocation call.advance vars frame machine
termination_by call.step.left
decreasing_by exact CallStep.left_next call.kind ‹_›

def leaveBody (invocation : Invocation) (call : Call) (frame : Frame) :
    Progress Completion × RunState → Progress Value × Machine
  | (.suspended body, state) =>
      (.suspended { frame.withChild 0 body with vars := state.vars }, state.machine)
  | (.done completion, state) =>
      (.ofExcept (Invocation.result invocation.function completion),
        Invocation.releaseGuard context call state.machine)
  | (.failed error, state) =>
      (.failed error, Invocation.releaseGuard context call state.machine)

def reported (invocation : Invocation) : Progress Value × Machine → Progress Value × Machine
  | (.failed error, machine) => (.failed (Invocation.reportedError invocation error), machine)
  | ended => ended

/-- Enter a call unless as many are entered as may be; its body is run by `body`. -/
def run (body : ProgramId → List Stmt → Frame → RunState → Meter →
      Metered (Progress Completion × RunState))
    (invocation : Invocation) (frame : Frame) (machine : Machine) (meter : Meter) :
    Metered (Progress Value × Machine) :=
  let attempted := { meter with attempts := meter.depth :: meter.attempts }
  if code.maxCallDepth ≤ meter.depth then
    let overflow : RuntimeError := ⟨.stackOverflow, none⟩
    some ((.failed (overflow.positionedAt invocation.site), machine), attempted)
  else
    let inside := { attempted with
      depth := meter.depth + 1, entries := meter.depth :: meter.entries }
    let (call, frame) := Invocation.entered invocation frame
    let ended := match advance code context invocation call frame.vars frame machine with
      | .stopped ended => some (ended, inside)
      | .ready call vars machine =>
          let frame := { frame with state := .call call, vars }
          let (allowed, gate) := machine.gate.ask
          let machine := { machine with gate }
          if !allowed then some ((.suspended frame, machine), inside)
          else
            (body invocation.function.program invocation.function.body.stmts (frame.child 0)
              ⟨vars, machine⟩ inside).map fun (ended, meter) =>
                (leaveBody context invocation call frame ended, meter)
    ended.map fun (ended, meter) =>
      (reported invocation ended, { meter with depth := meter.depth - 1 })

/-- Call the function of a site, by `call`, when its operands are the temporaries. -/
def callSite (program : ProgramId)
    (call : Invocation → Frame → Machine → Meter → Metered (Progress Value × Machine))
    (site : CallSite) (types : List DataType) (frame : Frame) (machine : Machine) (meter : Meter) :
    Metered (Progress Value × Machine) :=
  let activation (ended : Progress Value × Machine) : Activation :=
    ⟨code, context, program, fun _ _ _ => ended⟩
  match Evaluation.choose (activation (.done .void, machine)) site types frame machine with
  | .error error => some ((.failed error, machine), meter)
  | .ok (.gone, _, _) => some ((.failed ⟨.unknownFunction, none⟩, machine), meter)
  | .ok (.notFound _, _, _) => some ((.failed ⟨.undefinedCall, some site.span⟩, machine), meter)
  | .ok (.found function kept, receiver, args) =>
      let world := machine.world.keepCallee ⟨program, site.offset⟩ kept
      (call ⟨function, receiver, args, some site.span, program⟩ (frame.child types.length)
        { machine with world } meter).map fun (ended, meter) =>
          (Evaluation.enterSite (activation ended) site types.length (.found function kept) receiver
            args frame machine, meter)

end

def operands (evaluate : Expr → Frame → Machine → Meter → Metered (Progress Value × Machine))
    (slot : Nat) : List Expr → Frame → Machine → Meter → Metered (Progress Frame × Machine)
  | [], frame, machine, meter => some ((.done frame, machine), meter)
  | first :: rest, frame, machine, meter =>
      if slot < frame.temps.length then operands evaluate (slot + 1) rest frame machine meter
      else (evaluate first (frame.child slot) machine meter).bind fun (ended, meter) =>
        match Evaluation.operand slot (fun _ _ => ended) frame machine with
        | (.done frame, machine) => operands evaluate (slot + 1) rest frame machine meter
        | stopped => some (stopped, meter)

def statements (execute : Stmt → Frame → RunState → Meter →
      Metered (Progress Completion × RunState)) (place : Nat) :
    List Stmt → Frame → RunState → Meter → Metered (Progress Completion × RunState)
  | [], _, state, meter => some ((.done .next, state), meter)
  | stmt :: rest, frame, state, meter =>
      if place < frame.nextStatement then statements execute (place + 1) rest frame state meter
      else (execute stmt (frame.child place) state meter).bind fun (ended, meter) =>
        match ended with
        | (.done .next, state) =>
            let passed := { frame.withoutChild place with state := .block (place + 1) }
            statements execute (place + 1) rest passed state meter
        | (.suspended child, state) => some ((.suspended (frame.withChild place child), state), meter)
        | ended => some (ended, meter)

def valueThen (state : RunState)
    (continueWith : Value → RunState → Progress Completion × RunState) :
    Progress Value × Machine → Progress Completion × RunState
  | (.done value, machine) => continueWith value { state with machine }
  | (.suspended frame, machine) => (.suspended frame, { state with machine })
  | (.failed error, machine) => (.failed error, { state with machine })

mutual

def evalExpr (code : Code) (context : ContextId) (program : ProgramId) (vars : Variables)
    (within : Rank) (expr : Expr) (frame : Frame) (machine : Machine) (meter : Meter) :
    Metered (Progress Value × Machine) :=
  let here : Rank := ⟨code.maxCallDepth - meter.depth, expr.size⟩
  if here.Below within then
    let meter := { meter with steps := meter.steps + 1 }
    (operands (fun operand frame machine meter =>
        evalExpr code context program vars here operand frame machine meter)
      0 expr.operands frame.startEval machine meter).bind fun (computed, meter) =>
        match computed with
        | (.suspended frame, machine) => some ((.suspended frame, machine), meter)
        | (.failed error, machine) => some ((.failed error, machine), meter)
        | (.done frame, machine) =>
            match expr with
            | .literal _ _ value => some ((.done value, machine), meter)
            | .var _ span target =>
                some ((.ofExcept (Evaluation.readVariable machine.world.heap vars target span),
                  machine), meter)
            | .negate type span _ =>
                let value := frame.temps.getLast?.getD .void
                some ((.ofExcept (Evaluation.negate value type span), machine), meter)
            | .binary type span operator left right =>
                some ((.ofExcept (Evaluation.operate operator left.type right.type type
                  frame.temps span), machine), meter)
            | .call _ _ site operands =>
                callSite code context program (run code context
                    fun program stmts frame state meter =>
                      execBlock code context program here stmts frame state meter)
                  site (operands.map Expr.type) frame machine meter
  else none
termination_by (within.calls, within.size)
decreasing_by all_goals exact Prod.lex_def.mpr ‹here.Below within›

def execStmt (code : Code) (context : ContextId) (program : ProgramId) (within : Rank) (stmt : Stmt)
    (frame : Frame) (state : RunState) (meter : Meter) :
    Metered (Progress Completion × RunState) :=
  let here : Rank := ⟨code.maxCallDepth - meter.depth, stmt.size⟩
  if here.Below within then
    let meter := { meter with steps := meter.steps + 1 }
    let valued (expr : Expr)
        (continueWith : Value → RunState → Progress Completion × RunState) :=
      (evalExpr code context program state.vars here expr frame state.machine meter).map
        fun (ended, meter) => (valueThen state continueWith ended, meter)
    match stmt with
    | .block _ stmts => execBlock code context program here stmts frame state meter
    | .return _ none => some ((.done (.return .void), state), meter)
    | .return _ (some expr) => valued expr fun value state => (.done (.return value), state)
    | .wait _ count =>
        match frame.state with
        | .wait remaining => some (Evaluation.waitStep frame state remaining, meter)
        | _ => valued count fun value state =>
            Evaluation.waitStep frame.clearProgress state value.waitCount
    | .declare _ id name type none => some (Evaluation.declare id (.new name type) state, meter)
    | .declare span id name type (some expr) => valued expr fun value state =>
        match Evaluation.convert value type span with
        | .ok stored => Evaluation.declare id (.holding name type stored) state
        | .error error => (.failed error, state)
    | .assign span target expr => valued expr fun value state =>
        Evaluation.assign target span value state
    | .expr expr => valued expr fun _ state => (.done .next, state)
  else none
termination_by (within.calls, within.size)
decreasing_by all_goals exact Prod.lex_def.mpr ‹here.Below within›

def execBlock (code : Code) (context : ContextId) (program : ProgramId) (within : Rank)
    (stmts : List Stmt) (frame : Frame) (state : RunState) (meter : Meter) :
    Metered (Progress Completion × RunState) :=
  let here : Rank := ⟨code.maxCallDepth - meter.depth, Stmt.sizes stmts + 1⟩
  if here.Below within then
    let meter := { meter with steps := meter.steps + 1 }
    statements (fun stmt frame state meter =>
        execStmt code context program here stmt frame state meter)
      0 stmts { frame with state := .block frame.nextStatement } state meter
  else none
termination_by (within.calls, within.size)
decreasing_by all_goals exact Prod.lex_def.mpr ‹here.Below within›

end

end Metered

/-- Drive the call on a stack with a meter at rest. -/
def Engine.meteredDrive (engine : Engine) (stack : Stack) (gate : Gate) : Metered Driven :=
  match stack.entry with
  | none => some (⟨.error .noActiveCall, engine, stack, gate⟩, {})
  | some entry =>
      if (engine.code.programs.get? stack.program).isNone then
        some (⟨.error (.unknownProgram stack.program), engine, stack, gate⟩, {})
      else
        let ended (outcome : Outcome) (stack : Stack) : Metered Driven :=
          some (⟨.ok outcome, engine, stack.finish, gate⟩, {})
        match entryCallee engine.code stack entry with
        | .gone =>
            let error : RuntimeError := ⟨.unknownFunction, none⟩
            ended (.failed error) { stack with lastError := some error }
        | .notFound cause => ended (.notFound cause) stack
        | .found function kept =>
            (Metered.run engine.code stack.context
                (fun program stmts frame state meter =>
                  Metered.execBlock engine.code stack.context program ⟨engine.code.maxCallDepth, 0⟩
                    stmts frame state meter)
                (entry.invocation function stack.program) stack.root ⟨engine.world, gate⟩ {}).map
              fun (ended, meter) => (engine.ran stack entry kept ended, meter)

end ScriptEngine
