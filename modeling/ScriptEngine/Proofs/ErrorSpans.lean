import ScriptEngine.Proofs.Observing
import ScriptEngine.Proofs.Watching
/-! Where errors are reported. A span says nothing about the source that it is a place of, so an error
must not leave the program that it came from with the span it has there: on its way out it is reported
at the place of the call. -/

namespace ScriptEngine

mutual

/-- The places of an expression and of all that it is made of. A call in parentheses has two, with the
parentheses and without. -/
def Expr.spans : Expr → List Span
  | .literal _ span _ | .var _ span _ => [span]
  | .negate _ span inner => span :: inner.spans
  | .binary _ span _ left right => span :: (left.spans ++ right.spans)
  | .call _ span site operands => span :: site.span :: Expr.spansIn operands

def Expr.spansIn : List Expr → List Span
  | [] => []
  | first :: rest => first.spans ++ Expr.spansIn rest

end

mutual

def Stmt.spans : Stmt → List Span
  | .block span stmts => span :: Stmt.spansIn stmts
  | .return span none | .declare span _ _ _ none => [span]
  | .return span (some value) | .wait span value | .declare span _ _ _ (some value)
  | .assign span _ value => span :: value.spans
  | .expr value => value.spans

def Stmt.spansIn : List Stmt → List Span
  | [] => []
  | first :: rest => first.spans ++ Stmt.spansIn rest

end

def Function.spans (function : Function) : List Span :=
  function.params.params.map Param.span ++ Stmt.spansIn function.body.stmts

def Program.spans (program : Program) : List Span := program.functions.flatMap Function.spans

/-- An error that is reported at one of some places, if at any. -/
def RuntimeError.Within (error : RuntimeError) (spans : List Span) : Prop :=
  ∀ span, error.span = some span → span ∈ spans

def ErrsWithin {α : Type} (spans : List Span) (result : Except RuntimeError α) : Prop :=
  ∀ error, result = .error error → error.Within spans

def Progress.FailsWithin {α : Type} (spans : List Span) (progress : Progress α) : Prop :=
  ∀ error, progress = .failed error → error.Within spans

section

variable {α β : Type} {spans : List Span} {cause : RuntimeCause}

theorem RuntimeError.within_none : Within ⟨cause, none⟩ spans := nofun

theorem RuntimeError.within_some {span : Span} (among : span ∈ spans) :
    Within ⟨cause, some span⟩ spans := by
  intro other same
  cases same
  exact among

theorem RuntimeError.Within.mono {error : RuntimeError} {more : List Span}
    (within : error.Within spans) (fewer : spans ⊆ more) : error.Within more :=
  fun span same => fewer (within span same)

theorem errsWithin_ok (value : α) : ErrsWithin spans (.ok value) := nofun

theorem errsWithin_error {error : RuntimeError} (within : error.Within spans) :
    ErrsWithin spans (.error error : Except RuntimeError α) := by
  intro other same
  cases same
  exact within

theorem errsWithin_at {span : Span} (among : span ∈ spans) :
    ErrsWithin spans (.error ⟨cause, some span⟩ : Except RuntimeError α) :=
  errsWithin_error (RuntimeError.within_some among)

theorem ErrsWithin.bind {first : Except RuntimeError α} {next : α → Except RuntimeError β}
    (fails : ErrsWithin spans first) (each : ∀ value, ErrsWithin spans (next value)) :
    ErrsWithin spans (first >>= next) := by
  cases first with
  | ok value => exact each value
  | error error => exact errsWithin_error (fails error rfl)

namespace Progress

theorem failsWithin_done (value : α) : (done value).FailsWithin spans := nofun

theorem failsWithin_suspended (frame : Frame) : (suspended frame : Progress α).FailsWithin spans :=
  nofun

theorem failsWithin_failed {error : RuntimeError} (within : error.Within spans) :
    (failed error : Progress α).FailsWithin spans := by
  intro other same
  cases same
  exact within

theorem failsWithin_ofExcept {result : Except RuntimeError α}
    (fails : ErrsWithin spans result) : (ofExcept result).FailsWithin spans := by
  cases result with
  | ok value => exact failsWithin_done value
  | error error => exact failsWithin_failed (fails error rfl)

end Progress

end

def Activation.CallsWithin (activation : Activation) (spans : List Span)
    (calls : List (CallSite × List Expr)) : Prop :=
  ∀ call ∈ calls, ∀ frame machine,
    (Evaluation.callSite activation call.1 (call.2.map Expr.type) frame machine).1.FailsWithin spans

namespace Evaluation

open Progress

section

variable {spans : List Span} {span : Span} (among : span ∈ spans)
include among

theorem readVariable_within (heap : Heap) (vars : Variables) (target : Target) :
    ErrsWithin spans (readVariable heap vars target span) := by
  unfold readVariable
  dsimp only
  split
  · rename_i error found
    split at found
    · cases found
    · cases found
    · split at found
      · cases found
        exact errsWithin_at among
      · split at found
        · cases found
          exact errsWithin_at among
        · cases found
  · exact errsWithin_at among
  · exact errsWithin_ok _

theorem convert_within (value : Value) (type : DataType) :
    ErrsWithin spans (convert value type span) := by
  unfold convert
  split
  · exact errsWithin_ok _
  · exact errsWithin_at among

theorem writeVariable_within (heap : Heap) (vars : Variables) (target : Target) (value : Value) :
    ErrsWithin spans (writeVariable heap vars target value span) := by
  unfold writeVariable
  split
  · exact errsWithin_at among
  · split
    · exact errsWithin_at among
    · exact (convert_within among _ _).bind fun _ => errsWithin_ok _
  · split
    · exact errsWithin_at among
    · split
      · exact errsWithin_at among
      · split
        · exact errsWithin_at among
        · exact (convert_within among _ _).bind fun _ => errsWithin_ok _

theorem negate_within (value : Value) (type : DataType) :
    ErrsWithin spans (negate value type span) := by
  unfold negate
  split
  · exact convert_within among _ _
  · exact convert_within among _ _
  · exact errsWithin_at among

theorem computeInt_within (operator : Operator) (left right : Int64) :
    ErrsWithin spans (computeInt operator left right span) := by
  unfold computeInt
  split
  · exact errsWithin_ok _
  · exact errsWithin_ok _
  · exact errsWithin_ok _
  · split
    · exact errsWithin_at among
    · exact errsWithin_ok _

theorem computeFloat_within (operator : Operator) (left right : Float) :
    ErrsWithin spans (computeFloat operator left right span) := by
  unfold computeFloat
  split
  · exact errsWithin_ok _
  · exact errsWithin_ok _
  · exact errsWithin_ok _
  · split
    · exact errsWithin_at among
    · exact errsWithin_ok _

theorem compute_within (operator : Operator) (left right : Value) (type : DataType) :
    ErrsWithin spans (compute operator left right type span) := by
  unfold compute
  split
  · split
    · exact (computeInt_within among _ _ _).bind fun _ => convert_within among _ _
    · exact errsWithin_at among
  · split
    · exact (computeFloat_within among _ _ _).bind fun _ => convert_within among _ _
    · exact errsWithin_at among

theorem operate_within (operator : Operator) (leftType rightType type : DataType)
    (temps : List Value) :
    ErrsWithin spans (operate operator leftType rightType type temps span) := by
  unfold operate
  dsimp only
  split
  · exact errsWithin_ok _
  · exact compute_within among _ _ _ _

end

theorem operand_within {spans : List Span} {slot : Nat}
    {evaluate : Frame → Machine → Progress Value × Machine}
    (evaluated : ∀ child machine, (evaluate child machine).1.FailsWithin spans) (frame : Frame)
    (machine : Machine) : (operand slot evaluate frame machine).1.FailsWithin spans := by
  unfold operand
  split
  · exact failsWithin_done _
  · have fails := evaluated (frame.child slot) machine
    generalize evaluate (frame.child slot) machine = ended at fails
    obtain ⟨progress, after⟩ := ended
    cases progress with
    | done value => exact failsWithin_done _
    | suspended child => exact failsWithin_suspended _
    | failed error => exact failsWithin_failed (fails error rfl)

section

variable {activation : Activation} {spans : List Span}

mutual

theorem evalExpr_within (vars : Variables) : ∀ {expr : Expr}, expr.spans ⊆ spans →
    activation.CallsWithin spans expr.calls → ∀ frame machine,
      (evalExpr activation vars expr frame machine).1.FailsWithin spans
  | .literal .., _, _, _, _ => by
      rw [evalExpr]
      exact failsWithin_done _
  | .var _ span target, inside, _, _, machine => by
      rw [evalExpr]
      exact failsWithin_ofExcept (readVariable_within (inside (List.mem_cons_self ..)) _ _ _)
  | .negate type span inner, inside, calls, frame, machine => by
      obtain ⟨here, within⟩ := List.cons_subset.mp inside
      have fails := @operand_within spans 0 _
        (fun child machine => evalExpr_within vars within calls child machine) frame.startEval machine
      rw [evalExpr]
      generalize operand 0 _ frame.startEval machine = ended at fails
      obtain ⟨progress, after⟩ := ended
      cases progress with
      | done frame => exact failsWithin_ofExcept (negate_within here _ _)
      | suspended frame => exact failsWithin_suspended _
      | failed error => exact failsWithin_failed (fails error rfl)
  | .binary type span operator left right, inside, calls, frame, machine => by
      obtain ⟨here, within⟩ := List.cons_subset.mp inside
      obtain ⟨first, second⟩ := List.append_subset.mp within
      obtain ⟨calls, others⟩ := List.forall_mem_append.mp calls
      have fails := @operand_within spans 0 _
        (fun child machine => evalExpr_within vars first calls child machine) frame.startEval machine
      rw [evalExpr]
      generalize operand 0 _ frame.startEval machine = ended at fails
      obtain ⟨progress, after⟩ := ended
      cases progress with
      | done frame =>
          have fails := @operand_within spans 1 _
            (fun child machine => evalExpr_within vars second others child machine) frame after
          dsimp only
          generalize operand 1 _ frame after = ended at fails
          obtain ⟨progress, behind⟩ := ended
          cases progress with
          | done frame => exact failsWithin_ofExcept (operate_within here _ _ _ _ _)
          | suspended frame => exact failsWithin_suspended _
          | failed error => exact failsWithin_failed (fails error rfl)
      | suspended frame => exact failsWithin_suspended _
      | failed error => exact failsWithin_failed (fails error rfl)
  | .call type span site operands, inside, calls, frame, machine => by
      obtain ⟨_, within⟩ := List.cons_subset.mp inside
      obtain ⟨_, within⟩ := List.cons_subset.mp within
      obtain ⟨called, calls⟩ := List.forall_mem_cons.mp calls
      have fails := evalOperands_within vars within calls 0 frame.startEval machine
      rw [evalExpr]
      generalize evalOperands activation vars 0 operands frame.startEval machine = ended at fails
      obtain ⟨progress, after⟩ := ended
      cases progress with
      | done frame => exact called frame after
      | suspended frame => exact failsWithin_suspended _
      | failed error => exact failsWithin_failed (fails error rfl)

theorem evalOperands_within (vars : Variables) : ∀ {operands : List Expr},
    Expr.spansIn operands ⊆ spans → activation.CallsWithin spans (Expr.callsIn operands) →
      ∀ slot frame machine,
        (evalOperands activation vars slot operands frame machine).1.FailsWithin spans
  | [], _, _, _, frame, _ => by
      rw [evalOperands]
      exact failsWithin_done frame
  | first :: rest, inside, calls, slot, frame, machine => by
      obtain ⟨here, later⟩ := List.append_subset.mp inside
      obtain ⟨calls, others⟩ := List.forall_mem_append.mp calls
      have fails := @operand_within spans slot _
        (fun child machine => evalExpr_within vars here calls child machine) frame machine
      rw [evalOperands]
      generalize operand slot _ frame machine = ended at fails
      obtain ⟨progress, after⟩ := ended
      cases progress with
      | done frame => exact evalOperands_within vars later others (slot + 1) frame after
      | suspended frame => exact failsWithin_suspended _
      | failed error => exact failsWithin_failed (fails error rfl)

end

theorem evalThen_within {expr : Expr} (inside : expr.spans ⊆ spans)
    (calls : activation.CallsWithin spans expr.calls) (frame : Frame) (state : RunState)
    {continueWith : Value → RunState → Progress Completion × RunState}
    (continued : ∀ value state, (continueWith value state).1.FailsWithin spans) :
    (evalThen activation expr frame state continueWith).1.FailsWithin spans := by
  have fails := evalExpr_within state.vars inside calls frame state.machine
  unfold evalThen
  generalize evalExpr activation state.vars expr frame state.machine = ended at fails
  obtain ⟨progress, after⟩ := ended
  cases progress with
  | done value => exact continued value _
  | suspended frame => exact failsWithin_suspended _
  | failed error => exact failsWithin_failed (fails error rfl)

theorem waitStep_within (frame : Frame) (state : RunState) (remaining : Nat) :
    (waitStep frame state remaining).1.FailsWithin spans := by
  cases remaining with
  | zero => exact failsWithin_done _
  | succ remaining => exact failsWithin_suspended _

theorem assign_within {span : Span} (among : span ∈ spans) (target : Target) (value : Value)
    (state : RunState) : (assign target span value state).1.FailsWithin spans := by
  have fails := writeVariable_within among state.machine.world.heap state.vars target value
  unfold assign
  cases written : writeVariable state.machine.world.heap state.vars target value span with
  | ok changed => exact failsWithin_done _
  | error error => exact failsWithin_failed (fails error written)

mutual

theorem execStmt_within : ∀ {stmt : Stmt}, stmt.spans ⊆ spans →
    activation.CallsWithin spans stmt.calls → ∀ frame state,
      (execStmt activation stmt frame state).1.FailsWithin spans
  | .block span stmts, inside, calls, frame, state => by
      obtain ⟨_, within⟩ := List.cons_subset.mp inside
      rw [execStmt]
      exact execStmts_within within calls 0 _ state
  | .return _ none, _, _, frame, state => by
      rw [execStmt]
      exact failsWithin_done _
  | .return span (some expr), inside, calls, frame, state => by
      obtain ⟨_, within⟩ := List.cons_subset.mp inside
      rw [execStmt]
      exact evalThen_within within calls frame state fun _ _ => failsWithin_done _
  | .wait span count, inside, calls, frame, state => by
      obtain ⟨_, within⟩ := List.cons_subset.mp inside
      rw [execStmt]
      split
      · exact waitStep_within _ _ _
      · exact evalThen_within within calls frame state fun _ _ => waitStep_within _ _ _
  | .declare _ id name type none, _, _, frame, state => by
      rw [execStmt]
      exact failsWithin_done _
  | .declare span id name type (some expr), inside, calls, frame, state => by
      obtain ⟨here, within⟩ := List.cons_subset.mp inside
      rw [execStmt]
      refine evalThen_within within calls frame state fun value state => ?_
      cases stored : convert value type span with
      | ok stored => exact failsWithin_done _
      | error error => exact failsWithin_failed (convert_within here value type error stored)
  | .assign span target expr, inside, calls, frame, state => by
      obtain ⟨here, within⟩ := List.cons_subset.mp inside
      rw [execStmt]
      exact evalThen_within within calls frame state fun value state => assign_within here _ _ _
  | .expr expr, inside, calls, frame, state => by
      rw [execStmt]
      exact evalThen_within inside calls frame state fun _ _ => failsWithin_done _

theorem execStmts_within : ∀ {stmts : List Stmt}, Stmt.spansIn stmts ⊆ spans →
    activation.CallsWithin spans (Stmt.callsIn stmts) → ∀ place frame state,
      (execStmts activation place stmts frame state).1.FailsWithin spans
  | [], _, _, place, frame, state => by
      rw [execStmts]
      exact failsWithin_done _
  | stmt :: rest, inside, calls, place, frame, state => by
      obtain ⟨here, later⟩ := List.append_subset.mp inside
      obtain ⟨called, others⟩ := List.forall_mem_append.mp calls
      rw [execStmts]
      split
      · exact execStmts_within later others (place + 1) frame state
      · have fails := execStmt_within here called (frame.child place) state
        generalize execStmt activation stmt (frame.child place) state = ended at fails
        obtain ⟨progress, after⟩ := ended
        cases progress with
        | done completion =>
            cases completion with
            | next => exact execStmts_within later others (place + 1) _ after
            | «return» value => exact failsWithin_done _
        | suspended frame => exact failsWithin_suspended _
        | failed error => exact failsWithin_failed (fails error rfl)

end

end

end Evaluation

namespace Invocation

open Progress

theorem bind_within {params : ParamList} {args vars : Variables} {error : RuntimeError}
    (failed : (params.bind args vars).2 = some error) :
    error.Within (params.params.map Param.span) := by
  have each : ∀ (list : List Param) (place : Nat) (vars : Variables),
      (ParamList.bindFrom args place vars list).2 = some error →
        error.Within (list.map Param.span) := by
    intro list
    induction list with
    | nil => exact nofun
    | cons param rest ih =>
        intro place vars failed
        rw [ParamList.bindFrom] at failed
        split at failed
        · exact (ih _ _ failed).mono (List.subset_cons_self ..)
        · rename_i unbound
          cases failed
          unfold ParamList.bindParam at unbound
          split at unbound
          · cases unbound
          · cases unbound
            exact RuntimeError.within_some (List.mem_cons_self ..)
  exact each _ _ _ failed

section

variable {activation : Activation} {invocation : Invocation} {spans : List Span}

theorem programInstance_within {code : Code} {program : ProgramId} {className : String}
    {world : World} : ErrsWithin spans (programInstance code program className world) := by
  unfold programInstance
  dsimp only
  split
  · exact errsWithin_ok _
  · split
    · exact errsWithin_error RuntimeError.within_none
    · exact errsWithin_ok _

theorem bindInstance_within {code : Code} {vars : Variables} {world : World} :
    ErrsWithin spans (bindInstance code invocation vars world) := by
  unfold bindInstance
  split
  · exact errsWithin_ok _
  · split
    · exact errsWithin_ok _
    · exact programInstance_within.bind fun _ => errsWithin_ok _

theorem result_within (function : Function) (completion : Completion) :
    ErrsWithin spans (result function completion) := by
  unfold result
  split
  · exact errsWithin_ok _
  · split
    · exact errsWithin_ok _
    · exact errsWithin_error RuntimeError.within_none

variable (inside : invocation.function.spans ⊆ spans)
  (calls : activation.CallsWithin spans invocation.function.calls)
include inside calls

theorem bodyStep_within (call : Call) (vars : Variables) (frame : Frame) (machine : Machine) :
    (bodyStep activation invocation call vars frame machine).1.FailsWithin spans := by
  unfold bodyStep
  dsimp only
  split
  · exact failsWithin_suspended _
  · have fails := fun frame state =>
      Evaluation.execStmts_within (List.append_subset.mp inside).2 calls 0 frame state
    unfold Evaluation.execBlock
    split
    · exact failsWithin_suspended _
    · exact failsWithin_ofExcept (result_within _ _)
    · rename_i error state failed
      exact failsWithin_failed (fails _ _ error (congrArg Prod.fst failed))

theorem guardStep_within (call : Call) (vars : Variables) (frame : Frame) (machine : Machine) :
    (guardStep activation invocation call vars frame machine).1.FailsWithin spans := by
  unfold guardStep
  dsimp only
  split
  · exact bodyStep_within inside calls _ _ _ _
  · exact failsWithin_suspended _

theorem instanceStep_within (call : Call) (vars : Variables) (frame : Frame) (machine : Machine) :
    (instanceStep activation invocation call vars frame machine).1.FailsWithin spans := by
  unfold instanceStep
  split
  · rename_i error unbound
    exact failsWithin_failed (bindInstance_within error unbound)
  · dsimp only
    split
    · exact guardStep_within inside calls _ _ _ _
    · exact bodyStep_within inside calls _ _ _ _

theorem paramsStep_within (call : Call) (vars : Variables) (frame : Frame) (machine : Machine) :
    (paramsStep activation invocation call vars frame machine).1.FailsWithin spans := by
  unfold paramsStep
  split
  · rename_i error unbound
    refine failsWithin_failed ((bind_within (congrArg Prod.snd unbound)).mono ?_)
    exact (List.append_subset.mp inside).1
  · dsimp only
    split
    · exact instanceStep_within inside calls _ _ _ _
    · exact bodyStep_within inside calls _ _ _ _

theorem steps_within (call : Call) (frame : Frame) (machine : Machine) :
    (steps activation invocation call frame machine).1.FailsWithin spans := by
  unfold steps
  split
  · exact paramsStep_within inside calls _ _ _ _
  · exact instanceStep_within inside calls _ _ _ _
  · exact guardStep_within inside calls _ _ _ _
  · exact bodyStep_within inside calls _ _ _ _

end

end Invocation

mutual

theorem Expr.span_of_mem_calls : ∀ {expr : Expr}, ∀ made ∈ expr.calls, made.1.span ∈ expr.spans
  | .literal .., _, among | .var .., _, among => by
      rw [Expr.calls] at among
      cases among
  | .negate _ _ inner, made, among =>
      List.mem_cons_of_mem _ (@Expr.span_of_mem_calls inner made among)
  | .binary _ _ _ left right, made, among => by
      refine List.mem_cons_of_mem _ (List.mem_append.mpr ?_)
      exact (List.mem_append.mp among).imp (@Expr.span_of_mem_calls left made)
        (@Expr.span_of_mem_calls right made)
  | .call _ _ site operands, made, among => by
      rcases List.mem_cons.mp among with rfl | among
      · exact List.mem_cons_of_mem _ (List.mem_cons_self ..)
      · exact List.mem_cons_of_mem _ (List.mem_cons_of_mem _ (Expr.span_of_mem_callsIn made among))

theorem Expr.span_of_mem_callsIn : ∀ {exprs : List Expr}, ∀ made ∈ Expr.callsIn exprs,
    made.1.span ∈ Expr.spansIn exprs
  | [], _, among => by
      rw [Expr.callsIn] at among
      cases among
  | first :: rest, made, among => by
      refine List.mem_append.mpr ((List.mem_append.mp among).imp ?_ ?_)
      · exact @Expr.span_of_mem_calls first made
      · exact @Expr.span_of_mem_callsIn rest made

end

mutual

theorem Stmt.span_of_mem_calls : ∀ {stmt : Stmt}, ∀ made ∈ stmt.calls, made.1.span ∈ stmt.spans
  | .block _ stmts, made, among => List.mem_cons_of_mem _ (@Stmt.span_of_mem_callsIn stmts made among)
  | .return _ none, _, among | .declare _ _ _ _ none, _, among => by
      rw [Stmt.calls] at among
      cases among
  | .return _ (some value), made, among | .wait _ value, made, among
  | .declare _ _ _ _ (some value), made, among | .assign _ _ value, made, among =>
      List.mem_cons_of_mem _ (@Expr.span_of_mem_calls value made among)
  | .expr value, made, among => @Expr.span_of_mem_calls value made among

theorem Stmt.span_of_mem_callsIn : ∀ {stmts : List Stmt}, ∀ made ∈ Stmt.callsIn stmts,
    made.1.span ∈ Stmt.spansIn stmts
  | [], _, among => by
      rw [Stmt.callsIn] at among
      cases among
  | first :: rest, made, among => by
      refine List.mem_append.mpr ((List.mem_append.mp among).imp ?_ ?_)
      · exact @Stmt.span_of_mem_calls first made
      · exact @Stmt.span_of_mem_callsIn rest made

end

namespace Evaluation

variable {activation : Activation} {site : CallSite} {types : List DataType} {frame : Frame}
  {machine after : Machine} {error : RuntimeError}

theorem choose_owns (consistent : activation.code.Consistent) {function : Function}
    {kept : Option FunctionId} {receiver : Option Handle} {args : Variables}
    (chosen : choose activation site types frame machine =
      .ok (.found function kept, receiver, args)) : activation.code.Owns function := by
  have owned : ∀ {resolved : Except CompileCause Function × Option FunctionId},
      (∀ function id?, resolved = (.ok function, id?) → activation.code.Owns function) →
        callee activation.code (frame.child types.length) none resolved = .found function kept →
          activation.code.Owns function := by
    intro resolved owns found
    rcases callee_chosen found with ⟨call, _, loaded⟩ | ⟨_, rfl⟩
    · exact consistent.owns loaded
    · exact owns _ _ rfl
  unfold choose at chosen
  dsimp only at chosen
  split at chosen
  · split at chosen
    · cases chosen
    · obtain ⟨found, _⟩ := Prod.mk.inj (Except.ok.inj chosen)
      exact owned (fun _ _ resolved => consistent.resolveMethod resolved) found
  · obtain ⟨found, _⟩ := Prod.mk.inj (Except.ok.inj chosen)
    exact owned (fun _ _ resolved => consistent.resolveCall resolved) found

theorem receiver_span {heap : Heap} {temps : List Value}
    (unmet : receiver heap site temps = .error error) :
    error.span = none ∨ error.span = some site.span := by
  unfold receiver at unmet
  split at unmet
  · cases unmet
    exact Or.inr rfl
  · split at unmet
    · cases unmet
    · split at unmet
      · cases unmet
      · cases unmet
        exact Or.inr rfl

theorem callSite_failed
    (failed : callSite activation site types frame machine = (.failed error, after)) :
    ((∀ function kept rest, choose activation site types frame machine ≠
        .ok (.found function kept, rest)) ∧ (error.span = none ∨ error.span = some site.span)) ∨
    ∃ function kept receiver args child start,
      choose activation site types frame machine = .ok (.found function kept, receiver, args) ∧
      activation.call ⟨function, receiver, args, some site.span, activation.program⟩ child start =
        (.failed error, after) := by
  rw [callSite_eq] at failed
  split at failed
  · rename_i missing chosen
    cases failed
    refine Or.inl ⟨fun _ _ _ found => (nomatch chosen.symm.trans found), ?_⟩
    unfold choose at chosen
    dsimp only at chosen
    split at chosen
    · split at chosen
      · rename_i unmet
        cases chosen
        exact receiver_span unmet
      · cases chosen
    · cases chosen
  · rename_i callee receiver args chosen
    unfold enterSite at failed
    split at failed
    · cases failed
      exact Or.inl ⟨fun _ _ _ found => (nomatch chosen.symm.trans found), Or.inl rfl⟩
    · cases failed
      exact Or.inl ⟨fun _ _ _ found => (nomatch chosen.symm.trans found), Or.inr rfl⟩
    · dsimp only at failed
      split at failed
      · cases failed
      · exact Or.inr ⟨_, _, _, _, _, _, chosen, failed⟩

end Evaluation

theorem Programs.mem_of_function? {programs : Programs} {id : ProgramId} {function : FunctionId}
    {found : Function} (held : programs.function? id function = some found) :
    ∃ program, programs.get? id = some program ∧ found ∈ program.functions := by
  obtain ⟨program, loaded, among⟩ := Option.bind_eq_some_iff.mp held
  exact ⟨program, loaded, List.mem_of_find?_eq_some among⟩

def Code.Reports (code : Code) (call : Invocation → Frame → Machine → Progress Value × Machine) :
    Prop :=
  ∀ {invocation frame machine after error program},
    code.programs.get? invocation.function.program = some program →
    invocation.function ∈ program.functions →
    call invocation frame machine = (.failed error, after) →
      error.span = invocation.site ∨ (error.Within program.spans ∧
        (invocation.site = none ∨ invocation.function.program = invocation.caller))

theorem Evaluation.callSite_within {activation : Activation} {program : Program}
    (consistent : activation.code.Consistent) (reports : activation.code.Reports activation.call)
    (loaded : activation.code.programs.get? activation.program = some program) {site : CallSite}
    (among : site.span ∈ program.spans) {types : List DataType} {frame : Frame}
    {machine after : Machine} {error : RuntimeError}
    (failed : callSite activation site types frame machine = (.failed error, after)) :
    error.Within program.spans ∧ ∀ function kept rest,
      choose activation site types frame machine = .ok (.found function kept, rest) →
        function.program ≠ activation.program → error.span = some site.span := by
  have atSite : error.span = some site.span → error.Within program.spans := by
    intro same span reported
    rw [same] at reported
    cases reported
    exact among
  rcases callSite_failed failed with ⟨missing, reported⟩ |
    ⟨function, kept, receiver, args, child, start, chosen, failed⟩
  · refine ⟨?_, fun function kept rest chosen => absurd chosen (missing function kept rest)⟩
    rcases reported with unplaced | same
    · exact fun span reported => nomatch unplaced.symm.trans reported
    · exact atSite same
  · obtain ⟨other, holds, declared⟩ := Programs.mem_of_function? (choose_owns consistent chosen)
    rcases reports holds declared failed with same | ⟨within, absurdity | own⟩
    · exact ⟨atSite same, fun _ _ _ _ _ => same⟩
    · cases absurdity
    · dsimp only at own holds
      rw [own, loaded] at holds
      cases holds
      refine ⟨within, fun _ _ _ again apart => ?_⟩
      rw [chosen] at again
      cases again
      exact absurd own apart

theorem Invocation.run_reports {code : Code} (consistent : code.Consistent) (context : ContextId)
    (depth : Nat) : code.Reports (run code context depth) := by
  induction depth with
  | zero =>
      intro invocation frame machine after error program _ _ failed
      cases failed
      left
      cases invocation.site <;> rfl
  | succ depth ih =>
      intro invocation frame machine after error program loaded declared failed
      have inside : invocation.function.spans ⊆ program.spans :=
        fun span among => List.mem_flatMap.mpr ⟨_, declared, among⟩
      have calls : Activation.CallsWithin
          ⟨code, context, invocation.function.program, run code context depth⟩ program.spans
          invocation.function.calls := by
        intro made placed frame machine error failed
        refine (Evaluation.callSite_within consistent ih loaded (inside ?_)
          (Prod.ext failed rfl)).1
        exact List.mem_append_right _ (Stmt.span_of_mem_callsIn made placed)
      unfold run at failed
      dsimp only at failed
      split at failed
      · rename_i reported machine ended
        cases failed
        have within := steps_within inside calls _ _ _ reported (congrArg Prod.fst ended)
        unfold reportedError
        split
        · rename_i own
          exact Or.inr ⟨within, Or.inr own⟩
        · cases site : invocation.site with
          | none => exact Or.inr ⟨within, Or.inl rfl⟩
          | some span => exact Or.inl rfl
      · rename_i done
        exact absurd failed (done error after)

/-- Errors are reported in the right source. Whatever was loaded before, with whatever frames, and
however deep: a nested call that fails is reported to the body that made it nowhere, or at a place of
the program of that body, and at the very site of the call if the function it went to is of another
program. A call of the host that fails, when it starts or when it goes on, is reported nowhere, or at a
place of the program of its function. -/
theorem errors_stay_in_program (operations : List Operation) :
    let engine := (Host.after operations).engine
    (∀ program ∈ engine.code.programs, ∀ function ∈ program.functions,
      ∀ site operands, (site, operands) ∈ function.calls →
        ∀ context depth frame machine error after,
          let activation : Activation :=
            ⟨engine.code, context, program.id, Invocation.run engine.code context depth⟩
          let types := operands.map Expr.type
          Evaluation.callSite activation site types frame machine = (.failed error, after) →
            error.Within program.spans ∧ ∀ callee kept rest,
              Evaluation.choose activation site types frame machine =
                .ok (.found callee kept, rest) →
              callee.program ≠ program.id → error.span = some site.span) ∧
    ∀ stack gate error, (engine.drive stack gate).outcome = .ok (.failed error) →
      error.span = none ∨ ∃ entry callee kept program, stack.entry = some entry ∧
        Engine.entryCallee engine.code stack entry = .found callee kept ∧
        program ∈ engine.code.programs ∧ callee ∈ program.functions ∧
        error.Within program.spans := by
  obtain ⟨known, knows⟩ := Host.after_knows operations
  have consistent := knows.consistent
  intro engine
  refine ⟨?_, ?_⟩
  · intro program loaded function declared site operands placed context depth frame machine error
      after activation types failed
    have held := Programs.get?_of_mem knows.programs loaded
    have among : site.span ∈ program.spans := by
      refine List.mem_flatMap.mpr ⟨function, declared, List.mem_append_right _ ?_⟩
      exact Stmt.span_of_mem_callsIn (site, operands) placed
    have reports : activation.code.Reports activation.call :=
      Invocation.run_reports consistent context depth
    exact Evaluation.callSite_within consistent reports held among failed
  · intro stack gate error failed
    unfold Engine.drive at failed
    split at failed
    · cases failed
    · rename_i entry started
      split at failed
      · cases failed
      · dsimp only at failed
        split at failed
        · cases failed
          exact Or.inl rfl
        · cases failed
        · rename_i function kept found
          have owns : engine.code.Owns function := by
            obtain ⟨resolved, chosen, owned⟩ := Engine.entryCallee_eq engine.code stack entry
            rw [chosen] at found
            rcases Evaluation.callee_chosen found with ⟨call, _, loaded⟩ | ⟨_, resolved⟩
            · exact consistent.owns loaded
            · exact owned consistent _ _ resolved
          obtain ⟨program, loaded, declared⟩ := Programs.mem_of_function? owns
          generalize ended : Invocation.run _ _ _ _ _ _ = result at failed
          obtain ⟨progress, machine⟩ := result
          cases progress with
          | done value => cases failed
          | suspended root => cases failed
          | failed reported =>
              cases failed
              -- The call of the host has no site, so an error without a place stays without one.
              rcases Invocation.run_reports consistent _ _ loaded declared ended with unplaced | within
              · exact Or.inl unplaced
              · exact Or.inr ⟨entry, function, kept, program, started, found,
                  (Programs.mem_of_get? loaded).1, declared, within.1⟩

def dividing : List Operation :=
  [.compile "divide" "public int divide(int d) { return 10 / d; }",
    .compile "share" "public int share(int d) { int a = 1; return a + divide(d); }",
    .compile "main" "int main(int d) { return 2 * share(d); }"]

def dividingCall : Stack where
  context := ⟨1⟩
  program := ⟨3⟩
  entry := some { name := "main", args := [.holding "" .int (.int 0)] }

def Progress.error? {α : Type} : Progress α → Option RuntimeError
  | .failed error => some error
  | .done _ | .suspended _ => none

def Driven.error? (driven : Driven) : Option RuntimeError :=
  match driven.outcome with
  | .ok (.failed error) => some error
  | _ => none

theorem Progress.failed_of_error? {α : Type} {progress : Progress α} {error : RuntimeError}
    (failed : progress.error? = some error) : progress = .failed error := by
  cases progress with
  | failed other => exact congrArg Progress.failed (Option.some.inj failed)
  | done value => cases failed
  | suspended frame => cases failed

theorem Driven.failed_of_error? {driven : Driven} {error : RuntimeError}
    (failed : driven.error? = some error) : driven.outcome = .ok (.failed error) := by
  unfold error? at failed
  split at failed
  · rename_i same
    cases failed
    exact same
  · cases failed

def Evaluation.program? : Except RuntimeError (Callee × Option Handle × Variables) → Option ProgramId
  | .ok (.found function _, _) => some function.program
  | _ => none

theorem Evaluation.found_of_program?
    {choice : Except RuntimeError (Callee × Option Handle × Variables)} {id : ProgramId}
    (goes : program? choice = some id) : ∃ function kept rest,
      choice = .ok (.found function kept, rest) ∧ function.program = id := by
  unfold program? at goes
  split at goes
  · cases goes
    exact ⟨_, _, _, rfl, rfl⟩
  · cases goes

theorem errors_stay_in_program_of_dividing :
    let engine := (Host.after dividing).engine
    let activation (program : Program) : Activation :=
      ⟨engine.code, ⟨1⟩, program.id, Invocation.run engine.code ⟨1⟩ 8⟩
    (∃ program ∈ engine.code.programs, ∃ function ∈ program.functions, ∃ site operands error after,
      program.name = "share" ∧ (site, operands) ∈ function.calls ∧
      Evaluation.callSite (activation program) site (operands.map Expr.type)
        { state := .eval, temps := [.int 0] } ⟨{}, .unlimited⟩ = (.failed error, after) ∧
      error.span = some site.span ∧ error.Within program.spans) ∧
    ∃ span, (engine.drive dividingCall .unlimited).outcome =
        .ok (.failed ⟨.divisionByZero, some span⟩) ∧
      ∃ program ∈ engine.code.programs, span ∈ program.spans := by
  intro engine activation
  obtain ⟨nested, entered⟩ := errors_stay_in_program dividing
  constructor
  · have shown : (engine.code.programs.loaded.any fun program =>
        decide (program.name = "share") && program.functions.any fun function =>
          function.calls.any fun call =>
            (Evaluation.callSite (activation program) call.1 (call.2.map Expr.type)
              { state := .eval, temps := [.int 0] } ⟨{}, .unlimited⟩).1.error?.isSome &&
            decide (Evaluation.program? (Evaluation.choose (activation program) call.1
              (call.2.map Expr.type) { state := .eval, temps := [.int 0] } ⟨{}, .unlimited⟩) =
                some ⟨1⟩) && decide (program.id ≠ ⟨1⟩)) = true := by
      decide +kernel
    obtain ⟨program, loaded, shown⟩ := List.any_eq_true.mp shown
    obtain ⟨named, shown⟩ := Bool.and_eq_true_iff.mp shown
    obtain ⟨function, declared, shown⟩ := List.any_eq_true.mp shown
    obtain ⟨⟨site, operands⟩, placed, shown⟩ := List.any_eq_true.mp shown
    simp only [Bool.and_eq_true, decide_eq_true_eq, Option.isSome_iff_exists] at shown
    obtain ⟨⟨⟨error, failed⟩, goes⟩, apart⟩ := shown
    have failed : Evaluation.callSite (activation program) site (operands.map Expr.type)
        { state := .eval, temps := [.int 0] } ⟨{}, .unlimited⟩ = (.failed error, _) :=
      Prod.ext (Progress.failed_of_error? failed) rfl
    obtain ⟨callee, kept, rest, chosen, other⟩ := Evaluation.found_of_program? goes
    obtain ⟨within, exactly⟩ := nested program loaded function declared site operands placed _ _ _ _
      error _ failed
    exact ⟨program, loaded, function, declared, site, operands, error, _, of_decide_eq_true named,
      placed, failed, exactly callee kept rest chosen (other ▸ apart.symm), within⟩
  · have shown : ((engine.drive dividingCall .unlimited).error?.any fun error =>
        decide (error.cause = .divisionByZero) && error.span.isSome) = true := by
      decide +kernel
    obtain ⟨⟨cause, span⟩, failed, shown⟩ := (Option.any_eq_true ..).mp shown
    simp only [Bool.and_eq_true, decide_eq_true_eq, Option.isSome_iff_exists] at shown
    obtain ⟨rfl, span, rfl⟩ := shown
    have failed := Driven.failed_of_error? failed
    rcases entered _ _ _ failed with absurdity | ⟨_, _, _, program, _, _, loaded, _, within⟩
    · cases absurdity
    · exact ⟨span, failed, program, loaded, within span rfl⟩

end ScriptEngine
