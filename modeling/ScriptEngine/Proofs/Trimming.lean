import ScriptEngine.Proofs.Indifference
import ScriptEngine.Proofs.Restoring
/-! Nothing reads what is in a call whose function is gone: a call goes on from its frames as it
would from what is left of them without it. -/

namespace ScriptEngine

namespace Frame

def IsBlock (frame : Frame) : Prop := ∃ next, frame.state = .block next

theorem at_block {frame : Frame} (block : frame.IsBlock) :
    { frame with state := .block frame.nextStatement } = frame := by
  obtain ⟨next, state⟩ := block
  apply block_of_block
  rw [state, nextStatement, state]

theorem state_trimmed {code : Code} {frame : Frame} (loaded : frame.state.isLoaded code = true) :
    (frame.trimmed code).state = frame.state := by
  obtain ⟨state, vars, temps, children⟩ := frame
  rw [trimmed_of_loaded loaded]

theorem IsBlock.trimmed {frame : Frame} (block : frame.IsBlock) (code : Code) :
    (frame.trimmed code).IsBlock := by
  obtain ⟨next, state⟩ := block
  exact ⟨next, by rw [state_trimmed (by rw [state]; rfl), state]⟩

end Frame

theorem InProgress.isBlock {past : Past} {body : List Stmt} {frame : Frame}
    (progress : InProgress past (.block body) frame) : frame.IsBlock := by
  cases progress
  exact ⟨_, rfl⟩

def Frame.named? (frame : Frame) : Option (ProgramId × FunctionId) :=
  frame.call?.map fun call => (call.program, call.function)

@[simp] theorem Frame.named?_trimmed {code : Code} (frame : Frame) :
    (frame.trimmed code).named? = frame.named? := by
  obtain ⟨state, vars, temps, children⟩ := frame
  cases loaded : state.isLoaded code with
  | true =>
      rw [trimmed_of_loaded loaded]
      rfl
  | false =>
      rw [trimmed_of_gone loaded]
      cases state <;> rfl

theorem Evaluation.callee_named {code : Code} {frame other : Frame}
    (same : other.named? = frame.named?) (kept : Option FunctionId)
    (resolved : Except CompileCause Function × Option FunctionId) :
    Evaluation.callee code other kept resolved = Evaluation.callee code frame kept resolved := by
  unfold Frame.named? at same
  unfold Evaluation.callee
  cases held : frame.call? with
  | none =>
      rw [held, Option.map_none, Option.map_eq_none_iff] at same
      rw [same]
  | some call =>
      rw [held, Option.map_some] at same
      obtain ⟨other, also, names⟩ := Option.map_eq_some_iff.mp same
      simp only [Prod.mk.injEq] at names
      simp only [also, names]

theorem Evaluation.callee_trimmed {code : Code} (frame : Frame) (kept : Option FunctionId)
    (resolved : Except CompileCause Function × Option FunctionId) :
    Evaluation.callee code (frame.trimmed code) kept resolved =
      Evaluation.callee code frame kept resolved :=
  callee_named frame.named?_trimmed kept resolved

theorem Function.isLoaded_of_owns {code : Code} {function : Function}
    (owned : code.Owns function) (step : CallStep) :
    (FrameState.call { function.newCall with step }).isLoaded code = true :=
  Option.isSome_iff_exists.mpr ⟨function, owned⟩

namespace Remainder

open Direct (Course Ending Executed)

variable {code : Code} {context : ContextId} {scene : Scene} {vars : Variables}
  {temps : List Value} {child other : Frame}

def Same (code : Code) (context : ContextId) (frame other : Frame) : Part → Prop
  | .expr value => ∀ depth program vars course,
      let scene : Scene := ⟨code, context, program, run code context depth⟩
      expr scene vars value frame course = expr scene vars value other course
  | .stmt statement => ∀ depth program vars course,
      let scene : Scene := ⟨code, context, program, run code context depth⟩
      stmt scene statement frame vars course = stmt scene statement other vars course
  | .block body => ∀ depth program vars course,
      let scene : Scene := ⟨code, context, program, run code context depth⟩
      stmts scene 0 body frame vars course = stmts scene 0 body other vars course
  | .call function => code.Owns function →
      ∀ depth (invocation : Invocation), invocation.function = function → ∀ course,
        run code context depth invocation frame course =
          run code context depth invocation other course

theorem operand_due (evaluate : Frame → Course → Ending Value) (state : FrameState)
    (temps : List Value) (child : Frame) (course : Course) :
    operand temps.length evaluate ⟨state, [], temps, [(temps.length, child)]⟩ course =
      (evaluate child course).andThen fun value course =>
        .pure ⟨state, [], temps ++ [value], []⟩ course := by
  unfold operand
  simp only [Nat.lt_irrefl, if_false, Frame.child_single, Frame.withoutChild_single]

theorem exprs_due {operand : Expr}
    (same : ∀ course, expr scene vars operand child course = expr scene vars operand other course)
    {operands : List Expr} :
    ∀ {slot : Nat}, slot ≤ temps.length → operands[temps.length - slot]? = some operand →
      ∀ course, exprs scene vars slot operands ⟨.eval, [], temps, [(temps.length, child)]⟩ course =
        exprs scene vars slot operands ⟨.eval, [], temps, [(temps.length, other)]⟩ course := by
  induction operands with
  | nil =>
      intro slot _ placed
      cases placed
  | cons first rest ih =>
      intro slot reached placed course
      rw [exprs, exprs]
      by_cases due : slot = temps.length
      · subst due
        rw [Nat.sub_self] at placed
        cases placed
        rw [operand_due, operand_due, same]
      · have passed : slot < temps.length := by omega
        have one : temps.length - slot = temps.length - (slot + 1) + 1 := by omega
        rw [one, List.getElem?_cons_succ] at placed
        rw [operand_passed passed, operand_passed passed, Ending.andThen_pure, Ending.andThen_pure]
        exact ih passed placed course

theorem expr_due {whole operand : Expr} (placed : whole.operands[temps.length]? = some operand)
    (same : ∀ course, expr scene vars operand child course = expr scene vars operand other course)
    (course : Course) :
    expr scene vars whole ⟨.eval, [], temps, [(temps.length, child)]⟩ course =
      expr scene vars whole ⟨.eval, [], temps, [(temps.length, other)]⟩ course := by
  have computed : exprs scene vars 0 whole.operands ⟨.eval, [], temps, [(temps.length, child)]⟩ =
      exprs scene vars 0 whole.operands ⟨.eval, [], temps, [(temps.length, other)]⟩ :=
    funext (exprs_due same (Nat.zero_le _) (by rwa [Nat.sub_zero]))
  cases whole with
  | literal | var => cases placed
  | negate type span inner =>
      have one : ∀ frame, expr scene vars (.negate type span inner) frame course =
          (exprs scene vars 0 [inner] frame.startEval course).andThen fun frame course =>
            ⟨Evaluation.negate (frame.temps.getLast?.getD .void) type span, course⟩ := by
        intro frame
        simp only [expr, exprs, Ending.andThen_assoc, Ending.andThen_pure]
      rw [one, one, Frame.startEval_of_eval rfl, Frame.startEval_of_eval rfl]
      exact congrArg (Ending.andThen · _) (congrFun computed course)
  | binary type span operator left right =>
      have two : ∀ frame, expr scene vars (.binary type span operator left right) frame course =
          (exprs scene vars 0 [left, right] frame.startEval course).andThen fun frame course =>
            ⟨Evaluation.operate operator left.type right.type type frame.temps span, course⟩ := by
        intro frame
        simp only [expr, exprs, Ending.andThen_assoc, Ending.andThen_pure]
      rw [two, two, Frame.startEval_of_eval rfl, Frame.startEval_of_eval rfl]
      exact congrArg (Ending.andThen · _) (congrFun computed course)
  | call type span site operands =>
      rw [expr, expr]
      exact congrArg (Ending.andThen · _) (congrFun computed course)

theorem expr_callee {type : DataType} {span : Span} {site : CallSite} {operands : List Expr}
    (complete : temps.length = operands.length)
    (chosen : ∀ resolved, Evaluation.callee scene.code child none resolved =
      Evaluation.callee scene.code other none resolved)
    (same : ∀ resolved function kept,
      Evaluation.callee scene.code other none resolved = .found function kept →
      ∀ invocation : Invocation, invocation.function = function → ∀ course,
        scene.call invocation child course = scene.call invocation other course)
    (course : Course) :
    expr scene vars (.call type span site operands)
        ⟨.eval, [], temps, [(temps.length, child)]⟩ course =
      expr scene vars (.call type span site operands)
        ⟨.eval, [], temps, [(temps.length, other)]⟩ course := by
  have entered : ∀ receiver args resolved,
      enter scene site operands.length (Evaluation.callee scene.code child none resolved) receiver
          args ⟨.eval, [], temps, [(temps.length, child)]⟩ course =
        enter scene site operands.length (Evaluation.callee scene.code other none resolved) receiver
          args ⟨.eval, [], temps, [(temps.length, other)]⟩ course := by
    intro receiver args resolved
    rw [chosen]
    unfold enter
    cases found : Evaluation.callee scene.code other none resolved with
    | gone | notFound => rfl
    | found function kept =>
        dsimp only
        rw [complete, Frame.child_single, Frame.child_single]
        exact same resolved function kept found _ rfl _
  rw [expr, expr, Frame.startEval_of_eval rfl, Frame.startEval_of_eval rfl,
    exprs_passed (by simp [complete]), exprs_passed (by simp [complete]), Ending.andThen_pure,
    Ending.andThen_pure]
  unfold callSite
  dsimp only
  rw [List.length_map, complete, Frame.child_single, Frame.child_single]
  rw [complete] at entered
  split
  · split
    · rfl
    · exact entered ..
  · exact entered ..

theorem stmts_due {statement : Stmt} {next : Nat}
    (same : ∀ vars course,
      stmt scene statement child vars course = stmt scene statement other vars course)
    {body : List Stmt} :
    ∀ {place : Nat}, place ≤ next → body[next - place]? = some statement → ∀ vars course,
      stmts scene place body ⟨.block next, [], [], [(next, child)]⟩ vars course =
        stmts scene place body ⟨.block next, [], [], [(next, other)]⟩ vars course := by
  induction body with
  | nil =>
      intro place _ placed
      cases placed
  | cons first rest ih =>
      intro place reached placed vars course
      rw [stmts, stmts]
      by_cases due : place = next
      · subst due
        rw [Nat.sub_self] at placed
        cases placed
        simp only [Frame.nextStatement, Nat.lt_irrefl, if_false, Frame.child_single,
          Frame.withoutChild_single, same]
      · have passed : place < next := by omega
        have one : next - place = next - (place + 1) + 1 := by omega
        rw [one, List.getElem?_cons_succ] at placed
        simp only [Frame.nextStatement, passed, if_true]
        exact ih passed placed vars course

theorem run_body {invocation : Invocation} {call : Call} (runs : call.step = .runBody)
    (blocked : child.IsBlock) (also : other.IsBlock)
    (depth : Nat)
    (same : ∀ vars course,
      let scene : Scene := ⟨code, context, invocation.function.program, run code context depth⟩
      stmts scene 0 invocation.function.body.stmts child vars course =
        stmts scene 0 invocation.function.body.stmts other vars course)
    (course : Course) :
    run code context (depth + 1) invocation ⟨.call call, vars, [], [(0, child)]⟩ course =
      run code context (depth + 1) invocation ⟨.call call, vars, [], [(0, other)]⟩ course := by
  simp only [run, Invocation.entered, Frame.call?, steps, runs, bodyStep, Frame.child_single,
    Frame.at_block blocked, Frame.at_block also, same]

theorem inProgress_same {past : Past} (fits : past.Fits code) {part : Part} {frame : Frame}
    (progress : InProgress past part frame) :
    Same code context frame (frame.trimmed code) part := by
  induction progress with
  | operand placed _ ih =>
      intro depth program vars course
      rw [Frame.trimmed_of_loaded rfl, Frame.trimmedIn, Frame.trimmedIn]
      exact expr_due placed (ih depth program vars) course
  | @callee type span site operands temps function child complete enters progress ih =>
      intro depth program vars course
      rw [Frame.trimmed_of_loaded rfl, Frame.trimmedIn, Frame.trimmedIn]
      refine expr_callee complete (fun resolved => (Evaluation.callee_trimmed child ..).symm) ?_
        course
      intro resolved found kept chosen invocation means course
      rw [Evaluation.callee_trimmed] at chosen
      obtain ⟨among, step, held⟩ := progress.call_held
      -- The frame names the function that goes on, whatever the site would resolve to now.
      rcases Evaluation.callee_chosen chosen with ⟨call, same, loaded⟩ | ⟨untold, _⟩
      · rw [Frame.call?, held] at same
        cases same
        obtain rfl := fits.same function among found loaded
        exact ih loaded depth invocation means course
      · rw [Frame.call?, held] at untold
        cases untold
  | @lost type span site operands temps child complete lost =>
      intro depth program vars course
      rw [Frame.trimmed_of_loaded rfl, Frame.trimmedIn, Frame.trimmedIn]
      refine expr_callee complete (fun resolved => (Evaluation.callee_trimmed child ..).symm) ?_
        course
      intro resolved found kept chosen
      obtain ⟨call, held, gone⟩ := lost
      rw [Evaluation.callee_trimmed] at chosen
      simp only [Evaluation.callee, Frame.call?, held, fits.gone _ _ gone] at chosen
      cases chosen
  | @value statement value frame computes progress ih =>
      intro depth program vars course
      have evaluating : frame.state = .eval := by
        cases progress <;> rfl
      have also : (frame.trimmed code).state = .eval := by
        rw [Frame.state_trimmed (by rw [evaluating]; rfl), evaluating]
      have same := ih depth program vars
      cases statement with
      | block => cases computes
      | «return» | declare | assign | expr =>
          cases computes
          simp only [stmt, same]
      | wait =>
          cases computes
          simp only [stmt, same, evaluating, also]
  | waiting =>
      intro depth program vars course
      rw [Frame.trimmed_of_loaded rfl]
      rfl
  | @nested span body frame progress ih =>
      intro depth program vars course
      dsimp only
      rw [stmt, stmt, Frame.at_block progress.isBlock,
        Frame.at_block (progress.isBlock.trimmed code)]
      exact ih depth program vars course
  | block placed _ ih =>
      intro depth program vars course
      rw [Frame.trimmed_of_loaded rfl, Frame.trimmedIn, Frame.trimmedIn]
      exact stmts_due (ih depth program) (Nat.zero_le _) (by rwa [Nat.sub_zero]) vars course
  | queued | declined =>
      intro owned depth invocation _ course
      rw [Frame.trimmed_of_loaded (Function.isLoaded_of_owns owned _), Frame.trimmedIn]
  | @running function vars body among binds progress ih =>
      intro owned depth invocation means course
      rw [Frame.trimmed_of_loaded (Function.isLoaded_of_owns owned _), Frame.trimmedIn,
        Frame.trimmedIn]
      cases depth with
      | zero => rfl
      | succ depth =>
          subst means
          exact run_body rfl progress.isBlock (progress.isBlock.trimmed code) depth
            (ih depth _) course

end Remainder

section

variable {code : Code} {past : Past}

theorem Frame.Lost.settled {frame : Frame} (fits : past.Fits code) (lost : frame.Lost past) :
    (frame.trimmed code).Settled := by
  obtain ⟨call, held, gone⟩ := lost
  obtain ⟨state, vars, temps, children⟩ := frame
  dsimp only at held
  subst held
  have unloaded : (FrameState.call call).isLoaded code = false := by
    rw [FrameState.isLoaded, fits.gone _ _ gone]
    rfl
  rw [Frame.trimmed_of_gone unloaded]
  exact ⟨Or.inr rfl, True.intro⟩

theorem call_settled {function : Function} {step : CallStep} {vars : Variables}
    {children : List (Nat × Frame)} (bound : step = .acquireGuard ∨ step = .runBody)
    (settled : Frame.SettledIn (Frame.trimmedIn code children)) :
    (Frame.trimmed code ⟨.call { function.newCall with step }, vars, [], children⟩).Settled := by
  cases loaded : (FrameState.call { function.newCall with step }).isLoaded code with
  | true =>
      rw [Frame.trimmed_of_loaded loaded]
      exact ⟨bound, settled⟩
  | false =>
      rw [Frame.trimmed_of_gone loaded]
      exact ⟨Or.inr rfl, True.intro⟩

theorem InProgress.settled {part : Part} {frame : Frame} (progress : InProgress past part frame)
    (fits : past.Fits code) : (frame.trimmed code).Settled := by
  induction progress with
  | operand _ _ ih | callee _ _ _ ih | block _ _ ih =>
      rw [Frame.trimmed_of_loaded rfl]
      exact ⟨True.intro, ih, True.intro⟩
  | lost _ lost =>
      rw [Frame.trimmed_of_loaded rfl]
      exact ⟨True.intro, lost.settled fits, True.intro⟩
  | value _ _ ih | nested _ ih => exact ih
  | waiting =>
      rw [Frame.trimmed_of_loaded rfl]
      exact ⟨True.intro, True.intro⟩
  | queued => exact call_settled (Or.inl rfl) True.intro
  | declined => exact call_settled (Or.inr rfl) True.intro
  | running _ _ _ ih => exact call_settled (Or.inr rfl) ⟨ih, True.intro⟩

theorem CallFrame.settled {frame : Frame} (shape : CallFrame past frame) (fits : past.Fits code) :
    (frame.trimmed code).Settled := by
  cases shape with
  | fresh =>
      rw [Frame.trimmed_eq rfl]
      exact Frame.settled_fresh
  | going progress => exact progress.settled fits
  | lost lost => exact lost.settled fits

/-- A call whose function is found goes on from what is left of its frames. -/
theorem CallFrame.run_trimmed {frame : Frame} (shape : CallFrame past frame)
    (fits : past.Fits code) {invocation : Invocation}
    (found : ∀ program id, frame.named? = some (program, id) →
      code.programs.function? program id = some invocation.function)
    (context : ContextId) (depth : Nat) (course : Direct.Course) :
    Remainder.run code context depth invocation (frame.trimmed code) course =
      Remainder.run code context depth invocation frame course := by
  cases shape with
  | fresh => rw [Frame.trimmed_eq rfl]
  | @going function _ progress =>
      obtain ⟨among, step, held⟩ := progress.call_held
      have loaded := found function.program function.id (by rw [Frame.named?, Frame.call?, held]; rfl)
      have same := fits.same function among _ loaded
      have owned : code.Owns function := loaded.trans (congrArg some same)
      exact (Remainder.inProgress_same fits progress owned depth invocation same course).symm
  | lost lost =>
      obtain ⟨call, held, gone⟩ := lost
      have loaded := found call.program call.function (by rw [Frame.named?, Frame.call?, held]; rfl)
      rw [fits.gone _ _ gone] at loaded
      cases loaded

end

end ScriptEngine
