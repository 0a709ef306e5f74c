import ScriptEngine.Proofs.Paused
/-! Yields leave paused frames. Whatever running code starts on or goes on with, a part that yields
leaves a frame for itself and one for what it is at, and drops those of what is done; and a call
that yields has the variables that it made on the way. -/

namespace ScriptEngine

structure Past.Tells (past : Past) (code : Code) : Prop extends past.Fits code where
  distinct : ∀ function, code.Owns function → function.Distinct code.classes

def Pauses {α σ : Type} (known : List Function) (classes : ClassTable) (part : Part)
    (result : Progress α × σ) : Prop :=
  match result.1 with
  | .suspended left => Paused known classes part left
  | .done _ | .failed _ => True

/-- What a part of a body comes to where these variables were made before it: it makes its locals, or
yields with those of them that it has made. -/
def Makes (known : List Function) (classes : ClassTable) (before : Locals) (part : Part)
    (result : Progress Completion × RunState) : Prop :=
  match result.1 with
  | .done .next => result.2.vars.entries = before ++ part.locals
  | .suspended left => Paused known classes part left ∧
      result.2.vars.entries = before ++ part.reached left
  | .done (.return _) | .failed _ => True

structure Pausing (past : Past) (activation : Activation) : Prop
    extends past.Tells activation.code where
  call : ∀ invocation frame machine, activation.code.Owns invocation.function →
    Rested past.known activation.code.classes (.call invocation.function) frame →
      Pauses past.known activation.code.classes (.call invocation.function)
        (activation.call invocation frame machine)

theorem Pauses.ofExcept {σ : Type} {known : List Function} {classes : ClassTable} {part : Part}
    {result : Except RuntimeError Value} {state : σ} :
    Pauses known classes part (.ofExcept result, state) := by
  cases result <;> trivial

theorem Past.Fits.entering {past : Past} {code : Code} {classes : ClassTable}
    (fits : past.Fits code) {child : Frame}
    (shape : child = {} ∨ ∃ suspended, Paused past.known classes (.call suspended) child)
    {kept found? : Option FunctionId} {resolved : Except CompileCause Function × Option FunctionId}
    {function : Function}
    (owned : ∀ function kept, resolved = (.ok function, kept) → code.Owns function)
    (chosen : Evaluation.callee code child kept resolved = .found function found?) :
    code.Owns function ∧ Rested past.known classes (.call function) child := by
  rcases Evaluation.callee_chosen chosen with ⟨call, held, loaded⟩ | ⟨free, resolved⟩
  · rcases shape with rfl | ⟨suspended, paused⟩
    · cases held
    · obtain ⟨among, step, state⟩ := paused.call_held
      rw [Frame.call?, state] at held
      cases held
      obtain rfl := fits.same suspended among function loaded
      exact ⟨loaded, Or.inr paused⟩
  · rcases shape with rfl | ⟨suspended, paused⟩
    · exact ⟨owned _ _ resolved, Or.inl rfl⟩
    · obtain ⟨_, step, state⟩ := paused.call_held
      rw [Frame.call?, state] at free
      cases free

section

variable {past : Past} {activation : Activation} {vars : Variables}

theorem operand_operates {known : List Function} {classes : ClassTable} {expr operand : Expr}
    {slot : Nat} (placed : expr.operands[slot]? = some operand)
    {evaluate : Frame → Machine → Progress Value × Machine} {frame : Frame} {machine : Machine}
    (evaluated : ∀ child, Rested known classes (.expr operand) child →
      Pauses known classes (.expr operand) (evaluate child machine))
    (operating : Operating known classes expr slot frame) :
    match (Evaluation.operand slot evaluate frame machine).1 with
    | .done next => Operating known classes expr (slot + 1) next
    | .suspended left => Paused known classes (.expr expr) left
    | .failed _ => True := by
  unfold Evaluation.operand
  by_cases passed : slot < frame.temps.length
  · rw [if_pos passed]
    cases operating with
    | reached counted => exact absurd passed (by simp [counted])
    | ahead paused => exact .ahead paused passed
  · rw [if_neg passed]
    obtain ⟨evaluating, bare, counted, single, rested⟩ := operating.due placed passed
    have reached := evaluated _ rested
    generalize evaluate (frame.child slot) machine = ended at reached ⊢
    obtain ⟨progress, machine⟩ := ended
    obtain ⟨state, vars, temps, children⟩ := frame
    dsimp only at evaluating bare counted
    subst evaluating bare counted
    cases progress with
    | failed error => trivial
    | done value =>
        simp only [single.removed]
        exact .reached (by simp)
    | suspended child =>
        simp only [single.placed]
        exact .operand placed reached

theorem evalOperands_operates {known : List Function} {classes : ClassTable} {expr : Expr}
    (exprs : List Expr) :
    ∀ (before : List Expr), before ++ exprs = expr.operands →
      (∀ operand ∈ exprs, ∀ frame machine, Rested known classes (.expr operand) frame →
        Pauses known classes (.expr operand)
          (Evaluation.evalExpr activation vars operand frame machine)) →
      ∀ (frame : Frame) (machine : Machine), Operating known classes expr before.length frame →
        match (Evaluation.evalOperands activation vars before.length exprs frame machine).1 with
        | .done next => Operating known classes expr expr.operands.length next
        | .suspended left => Paused known classes (.expr expr) left
        | .failed _ => True := by
  induction exprs with
  | nil =>
      intro before whole _ frame machine operating
      rw [List.append_nil] at whole
      subst whole
      exact operating
  | cons first rest ih =>
      intro before whole each frame machine operating
      have placed : expr.operands[before.length]? = some first := by simp [← whole]
      have here := operand_operates placed
        (fun child rested => each first (List.mem_cons_self ..) child machine rested) operating
      rw [Evaluation.evalOperands]
      generalize Evaluation.operand _ _ _ _ = computed at here ⊢
      obtain ⟨progress, machine⟩ := computed
      cases progress with
      | suspended | failed => exact here
      | done next =>
          have longer : (before ++ [first]).length = before.length + 1 := by simp
          have behind := ih (before ++ [first]) (by simpa using whole)
            (fun operand later => each operand (List.mem_cons_of_mem _ later)) next machine
            (longer ▸ here)
          rw [longer] at behind
          exact behind

theorem enterSite_pauses (pausing : Pausing past activation) {type : DataType} {span : Span}
    {site : CallSite} {operands : List Expr} {frame : Frame} {machine : Machine}
    (operating : Operating past.known activation.code.classes (.call type span site operands)
      operands.length frame)
    {resolved : Except CompileCause Function × Option FunctionId}
    (owned : ∀ function kept, resolved = (.ok function, kept) → activation.code.Owns function)
    (receiver : Option Handle) (args : Variables) :
    Pauses past.known activation.code.classes (.expr (.call type span site operands))
      (Evaluation.enterSite activation site operands.length
        (Evaluation.callee activation.code (frame.child operands.length) none resolved) receiver
        args frame machine) := by
  obtain ⟨evaluating, bare, counted, single, shape⟩ := operating.calling
  cases chosen : Evaluation.callee activation.code (frame.child operands.length) none resolved with
  | gone | notFound => trivial
  | found function kept =>
      obtain ⟨owns, rested⟩ := pausing.toFits.entering shape owned chosen
      simp only [Evaluation.enterSite]
      have reached := pausing.call
        ⟨function, receiver, args, some site.span, activation.program⟩ _
        { machine with
          world := machine.world.keepCallee ⟨activation.program, site.offset⟩ kept } owns rested
      generalize activation.call _ _ _ = ended at reached ⊢
      obtain ⟨progress, after⟩ := ended
      cases progress with
      | done value => trivial
      | failed error => trivial
      | suspended left =>
          obtain ⟨state, vars, temps, children⟩ := frame
          dsimp only at evaluating bare counted
          subst evaluating bare
          change Paused _ _ _ (Frame.withChild _ operands.length left)
          rw [single.placed, ← counted]
          exact .callee counted reached

theorem callSite_pauses (pausing : Pausing past activation) {type : DataType} {span : Span}
    {site : CallSite} {operands : List Expr} {frame : Frame} {machine : Machine}
    (operating : Operating past.known activation.code.classes (.call type span site operands)
      operands.length frame) :
    Pauses past.known activation.code.classes (.expr (.call type span site operands))
      (Evaluation.callSite activation site (operands.map Expr.type) frame machine) := by
  unfold Evaluation.callSite
  simp only [List.length_map]
  split
  · split
    · trivial
    · exact enterSite_pauses pausing operating
        (fun function kept resolved => pausing.consistent.resolveMethod resolved) ..
  · exact enterSite_pauses pausing operating
      (fun function kept resolved => pausing.consistent.resolveCall resolved) ..

theorem evalExpr_pauses (pausing : Pausing past activation) (expr : Expr) (frame : Frame)
    (machine : Machine) (rested : Rested past.known activation.code.classes (.expr expr) frame) :
    Pauses past.known activation.code.classes (.expr expr)
      (Evaluation.evalExpr activation vars expr frame machine) := by
  have computes := evalOperands_operates expr.operands [] rfl
    (fun operand among => evalExpr_pauses pausing operand) frame.startEval machine rested.operating
  rw [Evaluation.evalExpr_eq]
  rw [List.length_nil] at computes
  generalize Evaluation.evalOperands _ _ _ _ _ _ = computed at computes ⊢
  obtain ⟨progress, machine⟩ := computed
  cases progress with
  | suspended left => exact computes
  | failed error => trivial
  | done next =>
      cases expr with
      | literal => trivial
      | var | negate | binary => exact Pauses.ofExcept
      | call => exact callSite_pauses pausing computes
termination_by expr.size
decreasing_by exact Expr.size_operand among

variable {before : Locals}

theorem evalThen_makes (pausing : Pausing past activation) {stmt : Stmt} {expr : Expr}
    (computes : stmt.value? = some expr) {frame : Frame} {state : RunState}
    (made : state.vars.entries = before)
    (rested : Rested past.known activation.code.classes (.expr expr) frame)
    {continueWith : Value → RunState → Progress Completion × RunState}
    (continued : ∀ value machine, Makes past.known activation.code.classes before (.stmt stmt)
      (continueWith value { state with machine })) :
    Makes past.known activation.code.classes before (.stmt stmt)
      (Evaluation.evalThen activation expr frame state continueWith) := by
  have reached := @evalExpr_pauses _ _ state.vars pausing expr frame state.machine rested
  unfold Evaluation.evalThen
  generalize Evaluation.evalExpr _ _ _ _ _ = ended at reached ⊢
  obtain ⟨progress, machine⟩ := ended
  cases progress with
  | done value => exact continued value machine
  | failed error => trivial
  | suspended left =>
      refine ⟨.value computes reached, ?_⟩
      rw [Part.reached, Stmt.reached_of_value computes, List.append_nil]
      exact made

theorem waitStep_makes {known : List Function} {classes : ClassTable} {span : Span}
    {count : Expr} {frame : Frame} {state : RunState} (made : state.vars.entries = before)
    (bare : frame = { state := frame.state }) (remaining : Nat) :
    Makes known classes before (.stmt (.wait span count))
      (Evaluation.waitStep frame state remaining) := by
  have same : before ++ [] = before := List.append_nil before
  cases remaining with
  | zero => exact made.trans same.symm
  | succ remaining =>
      rw [bare]
      exact ⟨.waiting, made.trans same.symm⟩

theorem declare_makes {known : List Function} {classes : ClassTable} {span : Span} {id : VarId}
    {name : String} {type : DataType} {init : Option Expr} {var : Variable} {state : RunState}
    (made : state.vars.entries = before) (declared : var.entry = (name, type)) :
    Makes known classes before (.stmt (.declare span id name type init))
      (Evaluation.declare id var state) := by
  change Variables.entries (state.vars ++ [var.bind (.var id)]) = before ++ [(name, type)]
  rw [Variables.entries_append, made, ← declared]
  rfl

theorem writeVariable_entries {heap after : Heap} {vars written : Variables} {target : Target}
    {value : Value} {span : Span}
    (done : Evaluation.writeVariable heap vars target value span = .ok (after, written)) :
    written.entries = vars.entries := by
  rcases writeVariable_cases done with ⟨_, _, _, _, _, _, rfl⟩ | ⟨_, _, _, _, _, _, _, _, _, rfl⟩
  · exact vars.entries_update ..
  · rfl

theorem execStmts_makes {whole : List Stmt} (stmts : List Stmt)
    (each : ∀ stmt ∈ stmts, ∀ {before : Locals} {frame : Frame} {state : RunState},
      state.vars.entries = before ++ stmt.reached frame →
      Rested past.known activation.code.classes (.stmt stmt) frame →
        Makes past.known activation.code.classes before (.stmt stmt)
          (Evaluation.execStmt activation stmt frame state)) :
    ∀ (passed : List Stmt), passed ++ stmts = whole → ∀ {frame : Frame} {state : RunState},
      state.vars.entries = before ++ Stmt.reachedIn 0 whole frame →
      Proceeding past.known activation.code.classes whole passed.length frame →
        Makes past.known activation.code.classes before (.block whole)
          (Evaluation.execStmts activation passed.length stmts frame state) := by
  induction stmts with
  | nil =>
      intro passed same frame state made proceeding
      rw [List.append_nil] at same
      subst same
      obtain rfl := proceeding.ended (Nat.le_refl _)
      have all := @Stmt.reachedIn_append passed [] { state := .block passed.length } 0
        (by simp [Frame.nextStatement])
      rw [List.append_nil, Stmt.reachedIn, List.append_nil] at all
      rw [all] at made
      rw [Evaluation.execStmts]
      exact made
  | cons first rest ih =>
      intro passed same frame state made proceeding
      subst same
      have behind := @ih (fun stmt later => each stmt (List.mem_cons_of_mem _ later))
        (passed ++ [first]) (by simp)
      have longer : (passed ++ [first]).length = passed.length + 1 := by simp
      rw [longer] at behind
      rw [Evaluation.execStmts]
      by_cases skipped : passed.length < frame.nextStatement
      · rw [if_pos skipped]
        exact behind made (proceeding.passed skipped)
      · rw [if_neg skipped]
        obtain ⟨blocked, bare, empty, single, rested⟩ := proceeding.due skipped
        obtain ⟨frameState, vars, temps, children⟩ := frame
        dsimp only at blocked bare empty
        subst blocked bare empty
        rw [reachedIn_at rfl, ← List.append_assoc] at made
        have here := each first (List.mem_cons_self ..) made rested
        generalize Evaluation.execStmt _ _ _ _ = ended at here ⊢
        obtain ⟨progress, after⟩ := ended
        cases progress with
        | failed error => trivial
        | suspended child =>
            obtain ⟨paused, made⟩ := here
            simp only [single.placed]
            refine ⟨.block (by simp) paused, ?_⟩
            rw [Part.reached, reachedIn_at rfl, Frame.child_single, ← List.append_assoc]
            exact made
        | done completion =>
            cases completion with
            | «return» value => trivial
            | next =>
                simp only [single.removed]
                refine behind ?_ .reached
                rw [reachedIn_next, ← List.append_assoc]
                exact here

theorem execStmt_makes (pausing : Pausing past activation) : ∀ (stmt : Stmt) {before : Locals}
    {frame : Frame} {state : RunState}, state.vars.entries = before ++ stmt.reached frame →
      Rested past.known activation.code.classes (.stmt stmt) frame →
        Makes past.known activation.code.classes before (.stmt stmt)
          (Evaluation.execStmt activation stmt frame state)
  | .block span stmts, before, frame, state, made, rested => by
      obtain ⟨proceeding, same⟩ := rested.block.proceeding
      rw [Stmt.reached, ← same] at made
      have here := execStmts_makes stmts
        (fun stmt among => execStmt_makes pausing stmt) [] rfl made proceeding
      rw [Evaluation.execStmt]
      generalize Evaluation.execStmts _ _ _ _ _ = ended at here ⊢
      obtain ⟨progress, after⟩ := ended
      cases progress with
      | done completion => cases completion <;> exact here
      | failed error => trivial
      | suspended left => exact ⟨.nested here.1, here.2⟩
  | .return _ none, _, _, _, _, _ => by
      rw [Evaluation.execStmt]
      trivial
  | .return _ (some expr), before, frame, state, made, rested => by
      rw [Stmt.reached, List.append_nil] at made
      rw [Evaluation.execStmt]
      exact evalThen_makes pausing rfl made
        (rested.value rfl (Or.inl fun _ _ => Stmt.noConfusion)) fun _ _ => trivial
  | .wait span count, before, frame, state, made, rested => by
      rw [Stmt.reached, List.append_nil] at made
      obtain ⟨cleared, bare⟩ := rested.bare
      rw [Evaluation.execStmt]
      split
      · rename_i remaining waiting
        exact waitStep_makes made (bare _ waiting) remaining
      · rename_i starts
        refine evalThen_makes pausing rfl made
          (rested.value rfl (Or.inr fun remaining waiting => starts remaining waiting)) ?_
        intro value machine
        let state : RunState := { state with machine }
        have made : state.vars.entries = before := made
        exact waitStep_makes made cleared value.waitCount
  | .declare _ _ _ _ none, before, frame, state, made, _ => by
      rw [Stmt.reached, List.append_nil] at made
      rw [Evaluation.execStmt]
      exact declare_makes made rfl
  | .declare span _ _ type (some expr), before, frame, state, made, rested => by
      rw [Stmt.reached, List.append_nil] at made
      rw [Evaluation.execStmt]
      refine evalThen_makes pausing rfl made
        (rested.value rfl (Or.inl fun _ _ => Stmt.noConfusion)) fun value machine => ?_
      cases Evaluation.convert value type span with
      | error error => trivial
      | ok stored => exact declare_makes made rfl
  | .assign span target expr, before, frame, state, made, rested => by
      rw [Stmt.reached, List.append_nil] at made
      rw [Evaluation.execStmt]
      refine evalThen_makes pausing rfl made
        (rested.value rfl (Or.inl fun _ _ => Stmt.noConfusion)) fun value machine => ?_
      unfold Evaluation.assign
      split
      · rename_i heap written stored
        change written.entries = before ++ []
        rw [List.append_nil, writeVariable_entries stored, made]
      · trivial
  | .expr expr, before, frame, state, made, rested => by
      rw [Stmt.reached, List.append_nil] at made
      rw [Evaluation.execStmt]
      refine evalThen_makes pausing rfl made
        (rested.value rfl (Or.inl fun _ _ => Stmt.noConfusion)) fun value machine => ?_
      exact made.trans (List.append_nil _).symm
termination_by stmt => stmt.size
decreasing_by exact Nat.lt_succ_of_lt (Stmt.size_statement among)

end

theorem bind_entries {function : Function} {args vars : Variables}
    (bound : function.params.bind args [] = (vars, none)) : vars.entries = function.parameters := by
  have each : ∀ (params : List Param) (place : Nat) (vars after : Variables),
      ParamList.bindFrom args place vars params = (after, none) →
        after.entries = vars.entries ++ params.map fun param => (param.name, param.type) := by
    intro params
    induction params with
    | nil =>
        intro place vars after bound
        cases bound
        simp
    | cons param rest ih =>
        intro place vars after bound
        rw [ParamList.bindFrom] at bound
        cases first : ParamList.bindParam args place param with
        | error error =>
            rw [first] at bound
            cases bound
        | ok var =>
            rw [first] at bound
            have declared : Variables.entries [var] = [(param.name, param.type)] := by
              unfold ParamList.bindParam at first
              split at first
              · cases first
                rfl
              · cases first
            rw [ih (place + 1) _ after bound, Variables.entries_append, declared, List.append_assoc]
            rfl
  exact each _ 0 [] vars bound

theorem bindInstance_entries {code : Code} {invocation : Invocation} {vars bound : Variables}
    {world after : World}
    (done : Invocation.bindInstance code invocation vars world = .ok (bound, after)) :
    bound.entries = vars.entries ++ invocation.function.object code.classes := by
  rcases bindInstance_cases done with ⟨unowned, rfl, _⟩ | ⟨owner, handle, owned, rfl, _⟩
  · rw [Function.object, unowned]
    exact (List.append_nil _).symm
  · rw [Variables.entries_append, Invocation.reservedVariables, Function.object, owned]
    dsimp only
    cases code.classes.parent? owner <;> rfl

section

variable {past : Past} {activation : Activation} {invocation : Invocation} {vars : Variables}

theorem bodyStep_pauses (pausing : Pausing past activation)
    (owns : activation.code.Owns invocation.function) {state : FrameState} {old : Variables}
    {children : List (Nat × Frame)} {machine : Machine}
    (entered : children = [] ∨ ∃ body, children = [(0, body)] ∧
      Paused past.known activation.code.classes (.block invocation.function.body.stmts) body)
    (made : vars.entries =
      invocation.function.parameters ++ invocation.function.object activation.code.classes ++
        Stmt.reachedIn 0 invocation.function.body.stmts
          (Frame.child ⟨state, old, [], children⟩ 0)) :
    Pauses past.known activation.code.classes (.call invocation.function)
      (Invocation.bodyStep activation invocation
        { invocation.function.newCall with step := .runBody } vars ⟨state, old, [], children⟩
        machine) := by
  let running : Call := { invocation.function.newCall with step := .runBody }
  let frame : Frame := ⟨.call running, vars, [], children⟩
  have among := pausing.owned _ owns
  have single : frame.Single 0 := by
    rcases entered with leaf | ⟨body, only, _⟩
    · exact Frame.single_of_nil leaf
    · exact Frame.single_of_child only
  have rested : Rested past.known activation.code.classes
      (.block invocation.function.body.stmts) (frame.child 0) := by
    rcases entered with leaf | ⟨body, only, paused⟩
    · exact Or.inl (Frame.child_of_nil leaf)
    · refine Or.inr ?_
      rw [Frame.child_of_child only]
      exact paused
  have made : vars.entries = invocation.function.parameters ++
      invocation.function.object activation.code.classes ++
        Stmt.reachedIn 0 invocation.function.body.stmts (frame.child 0) := made
  have lists : ∀ {vars : Variables} {body : Frame}, vars.entries =
      invocation.function.parameters ++ invocation.function.object activation.code.classes ++
        Stmt.reachedIn 0 invocation.function.body.stmts body →
      invocation.function.Lists activation.code.classes
        (Stmt.reachedIn 0 invocation.function.body.stmts body) vars :=
    fun made => (pausing.distinct _ owns).lists made (Stmt.reachedIn_sublist ..)
  unfold Invocation.bodyStep
  dsimp only
  generalize machine.gate.ask = answer
  obtain ⟨allowed, gate⟩ := answer
  cases allowed with
  | false =>
      rcases entered with rfl | ⟨body, rfl, paused⟩
      · have lists := lists made
        rw [Frame.child_of_nil rfl, Stmt.reachedIn_fresh 0 _ rfl rfl] at lists
        exact .declined among lists
      · have lists := lists made
        rw [Frame.child_of_child rfl] at lists
        exact .running among lists paused
  | true =>
      obtain ⟨proceeding, same⟩ := rested.proceeding
      rw [← same] at made
      let start : RunState := ⟨vars, { machine with gate }⟩
      have made : start.vars.entries = _ := made
      have reached := execStmts_makes invocation.function.body.stmts
        (fun stmt _ => execStmt_makes pausing stmt) [] rfl made proceeding
      simp only [Bool.not_true, Bool.false_eq_true, if_false, Evaluation.execBlock]
      rw [List.length_nil] at reached
      generalize Evaluation.execStmts activation 0 _ _ _ = ended at reached ⊢
      obtain ⟨progress, after⟩ := ended
      cases progress with
      | done completion => exact Pauses.ofExcept
      | failed error => trivial
      | suspended left =>
          change Paused _ _ _ { frame.withChild 0 left with vars := after.vars }
          rw [single.placed]
          exact .running among (lists reached.2) reached.1

theorem guardStep_pauses (pausing : Pausing past activation)
    (owns : activation.code.Owns invocation.function) {state : FrameState} {old : Variables}
    {machine : Machine} (locks : invocation.function.signature.callKind.isSynchronized = true)
    (made : vars.entries = invocation.function.parameters ++
      invocation.function.object activation.code.classes) :
    Pauses past.known activation.code.classes (.call invocation.function)
      (Invocation.guardStep activation invocation
        { invocation.function.newCall with step := .acquireGuard } vars ⟨state, old, [], []⟩
        machine) := by
  have made : vars.entries = invocation.function.parameters ++
      invocation.function.object activation.code.classes ++ [] :=
    made.trans (List.append_nil _).symm
  unfold Invocation.guardStep
  dsimp only
  generalize machine.world.guards.tryLock _ _ = answer
  obtain ⟨taken, guards⟩ := answer
  cases taken with
  | false =>
      have lists := (pausing.distinct _ owns).lists made (List.nil_sublist _)
      exact .queued (pausing.owned _ owns) lists locks
  | true =>
      refine bodyStep_pauses pausing owns (Or.inl rfl) ?_
      rw [Frame.child_of_nil rfl, Stmt.reachedIn_fresh 0 _ rfl rfl]
      exact made

theorem instanceStep_pauses (pausing : Pausing past activation)
    (owns : activation.code.Owns invocation.function) {state : FrameState} {old : Variables}
    {machine : Machine} (made : vars.entries = invocation.function.parameters) :
    Pauses past.known activation.code.classes (.call invocation.function)
      (Invocation.instanceStep activation invocation
        { invocation.function.newCall with step := .bindInstance } vars ⟨state, old, [], []⟩
        machine) := by
  unfold Invocation.instanceStep
  split
  · trivial
  · rename_i bound world done
    have made := (bindInstance_entries done).trans (congrArg (· ++ _) made)
    dsimp only [Call.advance, CallStep.next]
    by_cases locks : invocation.function.signature.callKind.isSynchronized = true
    · have locking : invocation.function.newCall.kind.isSynchronized = true := locks
      simp only [if_pos locking, if_true]
      exact guardStep_pauses pausing owns locks made
    · have free : ¬ invocation.function.newCall.kind.isSynchronized = true := locks
      simp only [if_neg free]
      rw [if_neg CallStep.noConfusion]
      refine bodyStep_pauses pausing owns (Or.inl rfl) ?_
      rw [Frame.child_of_nil rfl, Stmt.reachedIn_fresh 0 _ rfl rfl, List.append_nil]
      exact made

theorem paramsStep_pauses (pausing : Pausing past activation)
    (owns : activation.code.Owns invocation.function) {state : FrameState} {old : Variables}
    {machine : Machine} :
    Pauses past.known activation.code.classes (.call invocation.function)
      (Invocation.paramsStep activation invocation invocation.function.newCall []
        ⟨state, old, [], []⟩ machine) := by
  unfold Invocation.paramsStep
  split
  · trivial
  · rename_i vars taken
    have made := bind_entries taken
    dsimp only [Call.advance, CallStep.next, Function.newCall]
    by_cases binds : invocation.function.signature.callKind.bindsInstance = true
    · simp only [if_pos binds]
      exact instanceStep_pauses pausing owns made
    · have free : invocation.function.owner = none := by
        refine Signature.owner_of_function ?_
        cases kind : invocation.function.signature.callKind <;>
          simp [kind, CallKind.bindsInstance] at binds ⊢
      simp only [if_neg binds]
      rw [if_neg CallStep.noConfusion]
      refine bodyStep_pauses pausing owns (Or.inl rfl) ?_
      rw [Frame.child_of_nil rfl, Stmt.reachedIn_fresh 0 _ rfl rfl, List.append_nil, made,
        Function.object, free, List.append_nil]

theorem steps_pauses (pausing : Pausing past activation)
    (owns : activation.code.Owns invocation.function) {frame : Frame} {machine : Machine}
    (rested : Rested past.known activation.code.classes (.call invocation.function) frame) :
    Pauses past.known activation.code.classes (.call invocation.function)
      (Invocation.steps activation invocation (Invocation.entered invocation frame).1
        (Invocation.entered invocation frame).2 machine) := by
  rcases rested with rfl | paused
  · exact paramsStep_pauses pausing owns
  · cases paused with
    | queued _ lists locks =>
        exact guardStep_pauses pausing owns locks (lists.entries.trans (List.append_nil _))
    | declined _ lists =>
        refine bodyStep_pauses pausing owns (Or.inl rfl) ?_
        rw [Frame.child_of_nil rfl, Stmt.reachedIn_fresh 0 _ rfl rfl]
        exact lists.entries
    | running _ lists paused =>
        refine bodyStep_pauses pausing owns (Or.inr ⟨_, rfl, paused⟩) ?_
        rw [Frame.child_of_child rfl]
        exact lists.entries

end

/-- However deep its calls are nested, a call that yields leaves paused frames. -/
theorem run_pauses {past : Past} {code : Code} (tells : past.Tells code) (context : ContextId)
    (depth : Nat) (invocation : Invocation) (frame : Frame) (machine : Machine)
    (owns : code.Owns invocation.function)
    (rested : Rested past.known code.classes (.call invocation.function) frame) :
    Pauses past.known code.classes (.call invocation.function)
      (Invocation.run code context depth invocation frame machine) := by
  induction depth generalizing invocation frame machine with
  | zero => trivial
  | succ depth ih =>
      let activation : Activation :=
        ⟨code, context, invocation.function.program, Invocation.run code context depth⟩
      have pausing : Pausing past activation := { tells with call := ih }
      have reached := @steps_pauses _ activation invocation pausing owns frame machine rested
      unfold Invocation.run
      dsimp only
      generalize Invocation.steps activation _ _ _ _ = ended at reached ⊢
      obtain ⟨progress, after⟩ := ended
      cases progress with
      | done | failed => trivial
      | suspended => exact reached

end ScriptEngine
