import ScriptEngine.Proofs.Ending
import ScriptEngine.Proofs.SinglePath
/-! Suspended calls in a program that is not loaded. The way on leads through the frame of such a call,
and there is no function to go on with: the call of the host fails, or it yields before it comes there.
It never completes. -/

namespace ScriptEngine

namespace Frame

variable {program : ProgramId} {child : Frame}

theorem mem_programs {state : FrameState} {vars : Variables} {temps : List Value}
    {children : List (Nat × Frame)} (nested : program ∈ programsIn children) :
    program ∈ programs ⟨state, vars, temps, children⟩ := by
  cases state with
  | call call => exact List.mem_cons_of_mem _ nested
  | fresh | block | wait | eval => exact nested

theorem mem_programsIn_place (inside : program ∈ child.programs) (slot : Nat)
    (children : List (Nat × Frame)) : program ∈ programsIn (place slot child children) := by
  induction children with
  | nil => exact List.mem_append_left _ inside
  | cons entry rest ih =>
      unfold place
      split
      · exact List.mem_append_left _ inside
      · split
        · exact List.mem_append_left _ inside
        · exact List.mem_append_right _ ih

theorem mem_programs_withChild (inside : program ∈ child.programs) (frame : Frame) (slot : Nat) :
    program ∈ (frame.withChild slot child).programs :=
  mem_programs (mem_programsIn_place inside slot frame.children)

end Frame

def Blocked {α σ : Type} (program : ProgramId) (result : Progress α × σ) : Prop :=
  match result.1 with
  | .done _ => False
  | .suspended left => program ∈ left.programs
  | .failed _ => True

def Activation.Blocks (activation : Activation) (program : ProgramId) : Part → Frame → Prop
  | .expr expr, frame => ∀ vars machine,
      Blocked program (Evaluation.evalExpr activation vars expr frame machine)
  | .stmt stmt, frame => ∀ state,
      Blocked program (Evaluation.execStmt activation stmt frame state)
  | .block stmts, frame => ∀ state,
      Blocked program (Evaluation.execStmts activation 0 stmts frame state)
  | .call _, _ => True

section

variable {activation : Activation} {program : ProgramId} {vars : Variables} {temps : List Value}
  {child : Frame}

theorem operand_passed {slot : Nat} {evaluate : Frame → Machine → Progress Value × Machine}
    {frame : Frame} {machine : Machine} (passed : slot < frame.temps.length) :
    Evaluation.operand slot evaluate frame machine = (.done frame, machine) := if_pos passed

theorem evalOperands_passed {operands : List Expr} {frame : Frame} {machine : Machine} :
    ∀ slot, slot + operands.length ≤ frame.temps.length →
      Evaluation.evalOperands activation vars slot operands frame machine =
        (.done frame, machine) := by
  induction operands with
  | nil =>
      intro slot bound
      rw [Evaluation.evalOperands]
  | cons first rest ih =>
      intro slot bound
      rw [List.length_cons] at bound
      rw [Evaluation.evalOperands, operand_passed (by omega)]
      exact ih (slot + 1) (by omega)

theorem evalOperands_blocked {operand : Expr}
    (blocked : ∀ machine,
      Blocked program (Evaluation.evalExpr activation vars operand child machine))
    {operands : List Expr} {machine : Machine} :
    ∀ slot, slot ≤ temps.length → operands[temps.length - slot]? = some operand →
      Blocked program (Evaluation.evalOperands activation vars slot operands
        ⟨.eval, [], temps, [(temps.length, child)]⟩ machine) := by
  induction operands with
  | nil =>
      intro slot reached placed
      cases placed
  | cons first rest ih =>
      intro slot reached placed
      rw [Evaluation.evalOperands]
      by_cases due : slot = temps.length
      · subst due
        rw [Nat.sub_self] at placed
        cases placed
        have here := blocked machine
        unfold Evaluation.operand
        rw [if_neg (Nat.lt_irrefl _), Frame.child_single]
        generalize Evaluation.evalExpr _ _ _ _ _ = ended at here ⊢
        obtain ⟨progress, after⟩ := ended
        cases progress with
        | done value => exact here.elim
        | failed error => trivial
        | suspended left => exact Frame.mem_programs_withChild here ..
      · have passed : slot < temps.length := by omega
        have one : temps.length - slot = temps.length - (slot + 1) + 1 := by omega
        rw [one, List.getElem?_cons_succ] at placed
        rw [operand_passed passed]
        exact ih (slot + 1) passed placed

theorem evalExpr_blocked {expr : Expr} {frame : Frame} {machine : Machine}
    (evaluating : frame.state = .eval)
    (blocked : Blocked program
      (Evaluation.evalOperands activation vars 0 expr.operands frame machine)) :
    Blocked program (Evaluation.evalExpr activation vars expr frame machine) := by
  rw [Evaluation.evalExpr_eq, Frame.startEval_of_eval evaluating]
  generalize Evaluation.evalOperands _ _ _ _ _ _ = computed at blocked ⊢
  obtain ⟨progress, after⟩ := computed
  cases progress with
  | done next => exact blocked.elim
  | suspended | failed => exact blocked

theorem evalThen_blocked {expr : Expr} {frame : Frame} {state : RunState}
    (blocked : Blocked program
      (Evaluation.evalExpr activation state.vars expr frame state.machine))
    (continueWith : Value → RunState → Progress Completion × RunState) :
    Blocked program (Evaluation.evalThen activation expr frame state continueWith) := by
  unfold Evaluation.evalThen
  generalize Evaluation.evalExpr _ _ _ _ _ = ended at blocked ⊢
  obtain ⟨progress, after⟩ := ended
  cases progress with
  | done value => exact blocked.elim
  | suspended | failed => exact blocked

theorem execStmt_blocked {stmt : Stmt} {expr : Expr} (computes : stmt.value? = some expr)
    {frame : Frame} (evaluating : frame.state = .eval) {state : RunState}
    (blocked : Blocked program
      (Evaluation.evalExpr activation state.vars expr frame state.machine)) :
    Blocked program (Evaluation.execStmt activation stmt frame state) := by
  cases stmt with
  | block => cases computes
  | «return» | declare =>
      obtain rfl : _ = some expr := computes
      exact evalThen_blocked blocked _
  | assign | expr =>
      cases computes
      exact evalThen_blocked blocked _
  | wait =>
      cases computes
      rw [Evaluation.execStmt, evaluating]
      exact evalThen_blocked blocked _

theorem execStmts_blocked {next : Nat} {stmt : Stmt}
    (blocked : ∀ state, Blocked program (Evaluation.execStmt activation stmt child state))
    {stmts : List Stmt} {state : RunState} :
    ∀ place, place ≤ next → stmts[next - place]? = some stmt →
      Blocked program (Evaluation.execStmts activation place stmts
        ⟨.block next, [], [], [(next, child)]⟩ state) := by
  induction stmts with
  | nil =>
      intro place reached placed
      cases placed
  | cons first rest ih =>
      intro place reached placed
      have ahead : Frame.nextStatement ⟨.block next, [], [], [(next, child)]⟩ = next := rfl
      rw [Evaluation.execStmts, ahead]
      by_cases due : place = next
      · subst due
        rw [Nat.sub_self] at placed
        cases placed
        have here := blocked state
        rw [if_neg (Nat.lt_irrefl _), Frame.child_single]
        generalize Evaluation.execStmt _ _ _ _ = ended at here ⊢
        obtain ⟨progress, after⟩ := ended
        cases progress with
        | done completion => exact here.elim
        | failed error => trivial
        | suspended left => exact Frame.mem_programs_withChild here ..
      · have passed : place < next := by omega
        have one : next - place = next - (place + 1) + 1 := by omega
        rw [one, List.getElem?_cons_succ] at placed
        rw [if_pos passed]
        exact ih (place + 1) passed placed

end

structure Blocking (past : Past) (classes : ClassTable) (activation : Activation)
    (program : ProgramId) : Prop extends past.Fits activation.code where
  missing : activation.code.programs.get? program = none
  call : ∀ invocation frame machine, activation.code.Owns invocation.function →
    Paused past.known classes (.call invocation.function) frame → program ∈ frame.programs →
      Blocked program (activation.call invocation frame machine)

section

variable {past : Past} {classes : ClassTable} {activation : Activation} {program : ProgramId}
  {child : Frame}

theorem enterSite_blocked (blocking : Blocking past classes activation program) {slot : Nat}
    {temps : List Value} {site : CallSite} {suspended : Function} {machine : Machine}
    (paused : Paused past.known classes (.call suspended) child)
    (inside : program ∈ child.programs)
    {resolved : Except CompileCause Function × Option FunctionId}
    (owned : ∀ function kept, resolved = (.ok function, kept) → activation.code.Owns function)
    (receiver : Option Handle) (args : Variables) :
    Blocked program (Evaluation.enterSite activation site slot
      (Evaluation.callee activation.code child none resolved) receiver args
      ⟨.eval, [], temps, [(slot, child)]⟩ machine) := by
  cases chosen : Evaluation.callee activation.code child none resolved with
  | gone | notFound => trivial
  | found function kept =>
      obtain ⟨owns, fresh | paused⟩ :=
        blocking.toFits.entering (Or.inr ⟨suspended, paused⟩) owned chosen
      · rw [fresh] at inside
        cases inside
      · simp only [Evaluation.enterSite, Frame.child_single]
        have here := blocking.call
          ⟨function, receiver, args, some site.span, activation.program⟩ child
          { machine with
            world := machine.world.keepCallee ⟨activation.program, site.offset⟩ kept }
          owns paused inside
        generalize activation.call _ _ _ = ended at here ⊢
        obtain ⟨progress, after⟩ := ended
        cases progress with
        | done value => exact here.elim
        | failed error => trivial
        | suspended left => exact Frame.mem_programs_withChild here ..

theorem callSite_blocked (blocking : Blocking past classes activation program)
    {temps : List Value} {site : CallSite} {types : List DataType} {suspended : Function}
    {machine : Machine} (complete : temps.length = types.length)
    (paused : Paused past.known classes (.call suspended) child)
    (inside : program ∈ child.programs) :
    Blocked program (Evaluation.callSite activation site types
      ⟨.eval, [], temps, [(temps.length, child)]⟩ machine) := by
  unfold Evaluation.callSite
  simp only [complete, Frame.child_single]
  split
  · split
    · trivial
    · exact enterSite_blocked blocking paused inside
        (fun function kept resolved => blocking.consistent.resolveMethod resolved) ..
  · exact enterSite_blocked blocking paused inside
      (fun function kept resolved => blocking.consistent.resolveCall resolved) ..

theorem Paused.blocked (blocking : Blocking past classes activation program) {part : Part}
    {frame : Frame} (paused : Paused past.known classes part frame)
    (inside : program ∈ frame.programs) : activation.Blocks program part frame := by
  induction paused with
  | operand placed _ ih =>
      intro vars machine
      rw [Frame.programs_eval] at inside
      apply evalExpr_blocked rfl
      exact evalOperands_blocked (ih inside vars) 0 (Nat.zero_le _) placed
  | @callee type span site operands temps function child complete paused ih =>
      intro vars machine
      rw [Frame.programs_eval] at inside
      rw [Evaluation.evalExpr, Frame.startEval_of_eval rfl, evalOperands_passed 0 (by simp [complete])]
      exact callSite_blocked blocking (by simp [complete]) paused inside
  | @value stmt expr frame computes paused ih =>
      intro state
      have evaluating : frame.state = .eval := by
        cases paused <;> rfl
      exact execStmt_blocked computes evaluating (ih inside ..)
  | waiting => cases inside
  | nested paused ih =>
      intro state
      rw [Evaluation.execStmt]
      cases paused with
      | block => exact ih inside state
  | block placed _ ih =>
      intro state
      rw [Frame.programs_block] at inside
      exact execStmts_blocked (ih inside) 0 (Nat.zero_le _) placed
  | queued | declined | running => trivial

end

namespace Invocation

theorem reported_blocked {program : ProgramId} {invocation : Invocation}
    {ended : Progress Value × Machine} (blocked : Blocked program ended) :
    Blocked program (Metered.reported invocation ended) := by
  obtain ⟨progress, after⟩ := ended
  cases progress with
  | done value => exact blocked.elim
  | suspended left => exact blocked
  | failed error => trivial

theorem bodyStep_blocked {activation : Activation} {invocation : Invocation} {program : ProgramId}
    {call : Call} {vars : Variables} {body : Frame} {machine : Machine}
    (inside : program ∈ body.programs)
    (blocked : ∀ state, Blocked program
      (Evaluation.execBlock activation invocation.function.body.stmts body state)) :
    Blocked program (bodyStep activation invocation call vars
      ⟨.call call, vars, [], [(0, body)]⟩ machine) := by
  rw [Metered.bodyStep_eq]
  dsimp only
  generalize machine.gate.ask = answer
  obtain ⟨allowed, gate⟩ := answer
  cases allowed with
  | false =>
      -- The body is not run, and stays as it is.
      exact Frame.mem_programs (List.mem_append_left _ inside)
  | true =>
      have here := blocked ⟨vars, { machine with gate }⟩
      rw [Frame.child_single]
      generalize Evaluation.execBlock _ _ _ _ = ended at here ⊢
      obtain ⟨progress, after⟩ := ended
      cases progress with
      | done completion => exact here.elim
      | failed error => trivial
      | suspended left => exact Frame.mem_programs (Frame.mem_programsIn_place here ..)

/-- However deep the calls are nested in it, a call is blocked if one of them, or itself, is of a
program that is not loaded. -/
theorem run_blocked {past : Past} {classes : ClassTable} {code : Code} (fits : past.Fits code)
    {program : ProgramId} (missing : code.programs.get? program = none) (context : ContextId)
    (depth : Nat) (invocation : Invocation) (frame : Frame) (machine : Machine)
    (owns : code.Owns invocation.function)
    (paused : Paused past.known classes (.call invocation.function) frame)
    (inside : program ∈ frame.programs) :
    Blocked program (run code context depth invocation frame machine) := by
  induction depth generalizing invocation frame machine with
  | zero => trivial
  | succ depth ih =>
      -- The function of this call is loaded, so the program that is missing is one of the calls
      -- inside.
      have apart : program ≠ invocation.function.program := by
        rintro rfl
        rw [Code.Owns, Programs.function?, missing] at owns
        cases owns
      let activation : Activation :=
        ⟨code, context, invocation.function.program, run code context depth⟩
      have blocking : Blocking past classes activation program := { fits with missing, call := ih }
      cases paused with
      | queued | declined =>
          rw [Frame.programs_call] at inside
          rcases List.mem_cons.mp inside with same | absurdity
          · exact absurd same apart
          · cases absurdity
      | @running _ vars body among lists paused =>
          let call : Call := { invocation.function.newCall with step := .runBody }
          have nested : program ∈ body.programs := by
            rw [Frame.programs_call, Frame.programsIn, Frame.programsIn, List.append_nil] at inside
            exact (List.mem_cons.mp inside).resolve_left apart
          have blocked : ∀ state, Blocked program
              (Evaluation.execBlock activation invocation.function.body.stmts body state) := by
            intro state
            have within := paused.blocked blocking nested state
            cases paused with
            | block => exact within
          have ready : Metered.advance code context invocation call vars
              ⟨.call call, vars, [], [(0, body)]⟩ machine = .ready call vars machine := by
            rw [Metered.advance, if_pos rfl]
          rw [Metered.run_succ]
          change Blocked program (Metered.reported invocation ((Metered.advance code context
            invocation call vars ⟨.call call, vars, [], [(0, body)]⟩ machine).andThen _))
          rw [ready]
          exact reported_blocked (bodyStep_blocked nested blocked)

end Invocation

namespace Engine

variable {engine : Engine} {past : Past} {stack : Stack} {program : ProgramId}

/-- A stack that is suspended in a program that is not loaded does not complete its call when it is
resumed, and if the call is not over then it is still suspended there. -/
theorem drive_blocked (fits : past.Fits engine.code)
    (rests : stack.Rests past.known engine.code.classes)
    (missing : engine.code.programs.get? program = none) (inside : program ∈ stack.root.programs)
    (gate : Gate) :
    (∀ value, (engine.drive stack gate).outcome ≠ .ok (.completed value)) ∧
      ((engine.drive stack gate).stack.isActive = true →
        program ∈ (engine.drive stack gate).stack.root.programs) := by
  cases started : stack.entry with
  | none =>
      simp only [drive, started]
      exact ⟨fun _ completed => (by cases completed), fun _ => inside⟩
  | some entry =>
      by_cases gone : (engine.code.programs.get? stack.program).isNone = true
      · simp only [drive, started, if_pos gone]
        exact ⟨fun _ completed => (by cases completed), fun _ => inside⟩
      · cases found : entryCallee engine.code stack entry with
        | gone | notFound =>
            simp only [drive, started, if_neg gone, found]
            exact ⟨fun _ completed => (by cases completed), fun active => (by cases active)⟩
        | found function kept =>
            have loaded : (engine.code.programs.get? stack.program).isSome = true := by
              simpa [Option.isSome_iff_ne_none] using gone
            obtain ⟨resolved, chosen, owned⟩ := entryCallee_eq engine.code stack entry
            obtain ⟨owns, fresh | paused⟩ :=
              fits.entering rests (owned fits.consistent) (chosen ▸ found)
            · rw [fresh] at inside
              cases inside
            · have blocked := Invocation.run_blocked fits missing stack.context
                engine.code.maxCallDepth (entry.invocation function stack.program) stack.root
                ⟨engine.world, gate⟩ owns paused inside
              rw [drive_entered started loaded found]
              generalize Invocation.run _ _ _ _ _ _ = ended at blocked ⊢
              obtain ⟨progress, after⟩ := ended
              cases progress with
              | done value => exact blocked.elim
              | failed error =>
                  exact ⟨fun _ completed => (by cases completed), fun active => (by cases active)⟩
              | suspended root =>
                  exact ⟨fun _ completed => (by cases completed), fun _ => blocked⟩

end Engine

namespace Frame

mutual

theorem programs_unbound : ∀ frame : Frame, frame.unbound.programs = frame.programs
  | ⟨state, vars, temps, children⟩ => by
      have nested := programsIn_unbound children
      cases state with
      | call | fresh | block | wait | eval =>
          simp only [unbound, programs]
          rw [nested]

theorem programsIn_unbound : ∀ children : List (Nat × Frame),
    programsIn (unboundIn children) = programsIn children
  | [] => rfl
  | (slot, child) :: rest => by
      rw [unboundIn, programsIn, programsIn, programs_unbound child, programsIn_unbound rest]

end

end Frame

namespace Restoration

variable {past : Past} {code : Code} {context : ContextId} {classes : ClassTable}

theorem programs_restored (fits : past.Fits code) {part : Part} {frame : Frame}
    (paused : Paused past.known classes part frame) : ∀ levels guards,
      (restorePart code context levels part frame.unbound guards).1.programs = frame.programs := by
  induction paused with
  | operand placed _ ih =>
      intro levels guards
      rw [restorePart, Frame.unbound_single, List.map_nil, restoreExpr_operand _ placed,
        onChild_single, Frame.programs_eval, Frame.programs_eval]
      exact ih levels guards
  | @callee type span site _ _ _ _ complete _ ih =>
      intro levels guards
      rw [restorePart, Frame.unbound_single, List.map_nil,
        @restoreExpr_callee _ type span site _ _ _ complete, onChild_single, Frame.programs_eval,
        Frame.programs_eval]
      exact ih levels guards
  | value computes _ ih =>
      intro levels guards
      rw [restorePart_value computes]
      exact ih levels guards
  | waiting =>
      intro levels guards
      simp only [restorePart, restoreStmt, Frame.unbound_leaf]
      rw [restoreExpr_of_wait _ _ rfl]
      rfl
  | nested _ ih =>
      intro levels guards
      have inside := ih levels guards
      simp only [restorePart, restoreStmt] at inside ⊢
      exact inside
  | @block stmts next stmt child placed _ ih =>
      intro levels guards
      have descends := @restoreStmts_at (restoreCall code context levels) next stmt
        { state := .block next, children := [(next, child.unbound)] } rfl stmts []
        (Nat.zero_le _) placed
      rw [List.length_nil] at descends
      rw [restorePart, Frame.unbound_single, List.map_nil, descends, onChild_single,
        Frame.programs_block, Frame.programs_block]
      exact ih levels guards
  | queued | declined =>
      intro levels guards
      obtain ⟨bound, same, restored⟩ := @restoreCall_leaf code context _ _ levels guards
      rw [restorePart, restored, Frame.programs_call, Frame.programs_call]
  | @running function vars body among lists paused ih =>
      intro levels guards
      cases levels with
      | zero => exact Frame.programs_unbound _
      | succ levels =>
          have saved := body.programs_unbound
          rw [restorePart, Frame.unbound_single, restoreCall_body rfl]
          cases found : code.programs.function? function.program function.id with
          | none => simp [Function.newCall, found, Frame.programsIn, saved]
          | some loaded =>
              obtain rfl := fits.same function among loaded found
              have inside : ∀ guards, (restoreStmts (restoreCall code context levels) 0
                  loaded.body.stmts body.unbound guards).1.programs = body.programs := ih levels
              simp [Function.newCall, found, Frame.programsIn, inside]

end Restoration

end ScriptEngine
