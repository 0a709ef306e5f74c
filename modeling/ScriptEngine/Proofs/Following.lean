import ScriptEngine.Proofs.Effects
import ScriptEngine.Proofs.Remainder
import ScriptEngine.Proofs.Resolution
/-! The machine follows the evaluation in one go. Wherever it stops, what it did and what its frames
leave to do make up the whole: an end of the machine is the end of the evaluation, and at a yield
the evaluation from the new frames goes on as the one from the old frames would have.

A yield is one of a wait, which the evaluation counts, or it is due to the gate or to a guard. -/

namespace ScriptEngine.Following

open Direct (Course Ending Executed)

def Hindered (context : ContextId) (machine : Machine) : Prop :=
  machine.gate ≠ .unlimited ∨ ∃ className guard holder,
    machine.world.guards.guard? className = some guard ∧ guard.holder = some holder ∧
      holder ≠ context

section

variable {α β : Type} {context : ContextId} {world : World} {machine after : Machine}

def Ended (world : World) (after : Machine) (here : Course → Ending α)
    (result : Except RuntimeError α) : Prop :=
  ∀ yields, here ⟨world, yields⟩ = ⟨result, ⟨after.world, yields⟩⟩

/-- Evaluating from a world on is evaluating the rest from where the machine has stopped, at one
yield or, if it was hindered, at none that counts. -/
def Left (context : ContextId) (world : World) (after : Machine)
    (here there : Course → Ending α) : Prop :=
  ∃ count, (count = 1 ∨ count = 0 ∧ Hindered context after) ∧
    ∀ yields, here ⟨world, yields⟩ = there ⟨after.world, yields + count⟩

/-- How a result of the machine continues an evaluation whose rest depends on the frame left. -/
def Follows (context : ContextId) (world : World) (here : Course → Ending α)
    (rest : Frame → Course → Ending α) : Progress α × Machine → Prop
  | (.done value, after) => Ended world after here (.ok value)
  | (.failed error, after) => Ended world after here (.error error)
  | (.suspended left, after) => Left context world after here (rest left)

def Executes (context : ContextId) (world : World) (here : Course → Executed)
    (rest : Frame → Variables → Course → Executed) : Progress Completion × RunState → Prop
  | (.done completion, state) =>
      Ended world state.machine here (.ok (completion, state.vars))
  | (.failed error, state) => Ended world state.machine here (.error error)
  | (.suspended left, state) => Left context world state.machine here (rest left state.vars)

variable {here there : Course → Ending α} {next : α → Course → Ending β} {value : α}
  {error : RuntimeError}

theorem Ended.andThen {result : Except RuntimeError β}
    (first : Ended world machine here (.ok value))
    (second : Ended machine.world after (next value) result) :
    Ended world after (fun course => (here course).andThen next) result := by
  intro yields
  simp only [first yields, Ending.andThen_ok, second yields]

theorem Ended.andThen_failed (first : Ended world machine here (.error error)) :
    Ended world machine (fun course => (here course).andThen next) (.error error) := by
  intro yields
  simp only [first yields, Ending.andThen_error]

theorem Ended.andThen_left {rest : Course → Ending β}
    (first : Ended world machine here (.ok value))
    (second : Left context machine.world after (next value) rest) :
    Left context world after (fun course => (here course).andThen next) rest := by
  obtain ⟨count, counted, continues⟩ := second
  refine ⟨count, counted, fun yields => ?_⟩
  simp only [first yields, Ending.andThen_ok, continues yields]

theorem Left.andThen (first : Left context world machine here there) :
    Left context world machine (fun course => (here course).andThen next)
      (fun course => (there course).andThen next) := by
  obtain ⟨count, counted, continues⟩ := first
  exact ⟨count, counted, fun yields => by simp only [continues yields]⟩

theorem Follows.of_eq {between : World} {instead : Course → Ending α}
    {rest : Frame → Course → Ending α} {ended : Progress α × Machine}
    (same : ∀ yields, here ⟨world, yields⟩ = instead ⟨between, yields⟩)
    (follows : Follows context between instead rest ended) :
    Follows context world here rest ended := by
  obtain ⟨progress, after⟩ := ended
  cases progress with
  | done value => exact fun yields => (same yields).trans (follows yields)
  | failed error => exact fun yields => (same yields).trans (follows yields)
  | suspended left =>
      obtain ⟨count, counted, continues⟩ := follows
      exact ⟨count, counted, fun yields => (same yields).trans (continues yields)⟩

theorem Follows.of_rest {rest instead : Frame → Course → Ending α} {ended : Progress α × Machine}
    (same : ∀ left after, ended = (.suspended left, after) → rest left = instead left)
    (follows : Follows context world here instead ended) : Follows context world here rest ended := by
  obtain ⟨progress, after⟩ := ended
  cases progress with
  | done value => exact follows
  | failed error => exact follows
  | suspended left =>
      rw [Follows, same left after rfl]
      exact follows

theorem Ended.andThen_follows {rest : Frame → Course → Ending β} {ended : Progress β × Machine}
    (first : Ended world machine here (.ok value))
    (second : Follows context machine.world (next value) rest ended) :
    Follows context world (fun course => (here course).andThen next) rest ended := by
  obtain ⟨progress, after⟩ := ended
  cases progress with
  | done value => exact first.andThen second
  | failed error => exact first.andThen second
  | suspended left => exact first.andThen_left second

theorem Follows.ofExcept (result : Except RuntimeError α) (rest : Frame → Course → Ending α) :
    Follows context machine.world (fun course => ⟨result, course⟩) rest
      (.ofExcept result, machine) := by
  cases result with
  | ok value => exact fun _ => rfl
  | error error => exact fun _ => rfl

end

structure Further (frame later : Frame) : Prop where
  state : later.state = frame.state
  temps : frame.temps.length ≤ later.temps.length

theorem Further.trans {first second third : Frame} (before : Further first second)
    (behind : Further second third) : Further first third :=
  ⟨behind.state.trans before.state, Nat.le_trans before.temps behind.temps⟩

section

variable {slot : Nat} {evaluate : Frame → Machine → Progress Value × Machine} {frame : Frame}
  {machine after : Machine}

theorem operand_further {value : Frame}
    (done : Evaluation.operand slot evaluate frame machine = (.done value, after)) :
    Further frame value ∧ (slot ≤ frame.temps.length → slot < value.temps.length) := by
  unfold Evaluation.operand at done
  split at done
  · rename_i passed
    cases done
    exact ⟨⟨rfl, Nat.le_refl _⟩, fun _ => passed⟩
  · split at done
    · cases done
      refine ⟨⟨rfl, ?_⟩, fun bound => ?_⟩
      · simp
      · simpa using Nat.lt_succ_of_le bound
    · cases done
    · cases done

theorem operand_suspended {left : Frame}
    (stopped : Evaluation.operand slot evaluate frame machine = (.suspended left, after)) :
    Further frame left := by
  unfold Evaluation.operand at stopped
  split at stopped
  · cases stopped
  · split at stopped
    · cases stopped
    · cases stopped
      exact ⟨rfl, Nat.le_refl _⟩
    · cases stopped

end

section

variable {activation : Activation} {vars : Variables}

theorem evalOperands_further {operands : List Expr} :
    ∀ {slot : Nat} {frame value : Frame} {machine after : Machine},
      Evaluation.evalOperands activation vars slot operands frame machine = (.done value, after) →
      Further frame value ∧
        (slot ≤ frame.temps.length → slot + operands.length ≤ value.temps.length) := by
  induction operands with
  | nil =>
      intro slot frame value machine after done
      rw [Evaluation.evalOperands] at done
      cases done
      exact ⟨⟨rfl, Nat.le_refl _⟩, fun bound => bound⟩
  | cons first rest ih =>
      intro slot frame value machine after done
      rw [Evaluation.evalOperands] at done
      split at done
      · rename_i between _ reached
        have one := operand_further reached
        have more := ih done
        refine ⟨one.1.trans more.1, fun bound => ?_⟩
        have counted := more.2 (one.2 bound)
        simp only [List.length_cons]
        omega
      · rename_i ended
        exact absurd done (ended _ _)

theorem evalOperands_suspended {operands : List Expr} :
    ∀ {slot : Nat} {frame left : Frame} {machine after : Machine},
      Evaluation.evalOperands activation vars slot operands frame machine =
        (.suspended left, after) → Further frame left := by
  induction operands with
  | nil =>
      intro slot frame left machine after stopped
      rw [Evaluation.evalOperands] at stopped
      cases stopped
  | cons first rest ih =>
      intro slot frame left machine after stopped
      rw [Evaluation.evalOperands] at stopped
      split at stopped
      · rename_i reached
        exact (operand_further reached).1.trans (ih stopped)
      · exact operand_suspended stopped

theorem enterSite_suspended {site : CallSite} {slot : Nat} {callee : Evaluation.Callee}
    {receiver : Option Handle} {args : Variables} {frame left : Frame} {machine after : Machine}
    (stopped : Evaluation.enterSite activation site slot callee receiver args frame machine =
      (.suspended left, after)) : ∃ child, left = frame.withChild slot child := by
  unfold Evaluation.enterSite at stopped
  split at stopped
  · cases stopped
  · cases stopped
  · dsimp only at stopped
    split at stopped
    · cases stopped
      exact ⟨_, rfl⟩
    · rename_i ended
      exact absurd stopped (ended _ _)

theorem callSite_suspended {site : CallSite} {types : List DataType} {frame left : Frame}
    {machine after : Machine}
    (stopped : Evaluation.callSite activation site types frame machine = (.suspended left, after)) :
    ∃ child, left = frame.withChild types.length child := by
  unfold Evaluation.callSite at stopped
  dsimp only at stopped
  split at stopped
  · split at stopped
    · cases stopped
    · exact enterSite_suspended stopped
  · exact enterSite_suspended stopped

theorem evalExpr_suspended {expr : Expr} {frame left : Frame} {machine after : Machine}
    (stopped : Evaluation.evalExpr activation vars expr frame machine = (.suspended left, after)) :
    left.state = .eval := by
  cases expr with
  | literal type span value =>
      rw [Evaluation.evalExpr] at stopped
      cases stopped
  | var type span target =>
      rw [Evaluation.evalExpr] at stopped
      cases read : Evaluation.readVariable machine.world.heap vars target span <;>
        simp [read, Progress.ofExcept] at stopped
  | negate type span inner =>
      rw [Evaluation.evalExpr] at stopped
      split at stopped
      · rename_i between _ _
        cases result : Evaluation.negate (between.temps.getLast?.getD .void) type span <;>
          simp [result, Progress.ofExcept] at stopped
      · rename_i reached
        cases stopped
        exact (operand_suspended reached).state.trans frame.state_startEval
      · cases stopped
  | binary type span operator lhs rhs =>
      rw [Evaluation.evalExpr] at stopped
      split at stopped
      · rename_i between _ first
        have evaluating : between.state = .eval :=
          (operand_further first).1.state.trans frame.state_startEval
        split at stopped
        · rename_i finished _ _
          cases result : Evaluation.operate operator lhs.type rhs.type type finished.temps span <;>
            simp [result, Progress.ofExcept] at stopped
        · rename_i reached
          cases stopped
          exact (operand_suspended reached).state.trans evaluating
        · cases stopped
      · rename_i reached
        cases stopped
        exact (operand_suspended reached).state.trans frame.state_startEval
      · cases stopped
  | call type span site operands =>
      rw [Evaluation.evalExpr] at stopped
      split at stopped
      · rename_i reached
        obtain ⟨child, rfl⟩ := callSite_suspended stopped
        exact (evalOperands_further reached).1.state.trans frame.state_startEval
      · rename_i reached
        cases stopped
        exact (evalOperands_suspended reached).state.trans frame.state_startEval
      · cases stopped

end

structure Paired (activation : Activation)
    (call : Invocation → Frame → Course → Ending Value) : Prop where
  follows : ∀ invocation frame machine, Follows activation.context machine.world
    (call invocation frame) (call invocation) (activation.call invocation frame machine)
  named : ∀ invocation frame machine left after,
    activation.call invocation frame machine = (.suspended left, after) →
      ∃ step, left.call? = some { (Invocation.entered invocation frame).1 with step }
  moves : activation.Moves
  consistent : activation.code.Consistent

section

variable {activation : Activation} {call : Invocation → Frame → Course → Ending Value}

abbrev sceneOf (activation : Activation) (call : Invocation → Frame → Course → Ending Value) :
    Remainder.Scene :=
  ⟨activation.code, activation.context, activation.program, call⟩

theorem operand_follows (slot : Nat) {evaluate : Frame → Machine → Progress Value × Machine}
    {direct : Frame → Course → Ending Value} {context : ContextId}
    (evaluated : ∀ frame machine,
      Follows context machine.world (direct frame) direct (evaluate frame machine))
    (frame : Frame) (machine : Machine) :
    Follows context machine.world (Remainder.operand slot direct frame)
      (Remainder.operand slot direct) (Evaluation.operand slot evaluate frame machine) := by
  unfold Evaluation.operand
  by_cases passed : slot < frame.temps.length
  · rw [if_pos passed]
    intro yields
    rw [Remainder.operand, if_pos passed]
    rfl
  · rw [if_neg passed]
    have reached := evaluated (frame.child slot) machine
    have unfolded : ∀ between : Frame, between.temps = frame.temps →
        Remainder.operand slot direct between = fun course =>
          (direct (between.child slot) course).andThen fun value course =>
            let finished := between.withoutChild slot
            .pure { finished with temps := finished.temps ++ [value] } course := by
      intro between same
      funext course
      rw [Remainder.operand, if_neg (by rw [same]; exact passed)]
    rw [unfolded frame rfl]
    generalize evaluate (frame.child slot) machine = ended at reached ⊢
    obtain ⟨progress, after⟩ := ended
    cases progress with
    | done value => exact Ended.andThen reached fun _ => rfl
    | failed error => exact Ended.andThen_failed reached
    | suspended child =>
        simp only [Follows, unfolded (frame.withChild slot child) rfl, Frame.child_withChild,
          Frame.withoutChild_withChild]
        exact Left.andThen reached

theorem receiver_live {code : Code} {context : ContextId} {world changed : World}
    (effects : Effects code context world changed) {site : CallSite} {temps : List Value}
    {handle : Handle} {className : String}
    (found : Evaluation.receiver world.heap site temps = .ok (handle, className)) :
    ∃ current, Evaluation.receiver changed.heap site temps = .ok (handle, current) := by
  unfold Evaluation.receiver at found ⊢
  cases given : temps.head?.bind Value.asObject? with
  | none => simp [given] at found
  | some target =>
      simp only [given] at found ⊢
      cases dispatched : site.dispatch with
      | ofClass owner =>
          simp only [dispatched, Except.ok.injEq, Prod.mk.injEq] at found ⊢
          exact ⟨owner, found.1, rfl⟩
      | free | receiver =>
          simp only [dispatched] at found ⊢
          split at found
          · rename_i object live
            cases found
            obtain ⟨after, live⟩ := effects.live live
            exact ⟨after.className, by simp only [live]⟩
          · cases found

theorem callee_found {code : Code} {frame : Frame} {kept found? : Option FunctionId}
    {function : Function} {resolved : Except CompileCause Function × Option FunctionId}
    (chosen : Evaluation.callee code frame kept resolved = .found function found?)
    (owned : ∀ id?, resolved = (.ok function, id?) → code.Owns function)
    (receiver : Option Handle) (args : Variables) (site : Option Span) (caller : ProgramId) :
    let call := (Invocation.entered ⟨function, receiver, args, site, caller⟩ frame).1
    code.programs.function? call.program call.function = some function := by
  dsimp only [Invocation.entered]
  rcases Evaluation.callee_chosen chosen with ⟨call, held, loaded⟩ | ⟨untold, rfl⟩
  · rw [held]
    exact loaded
  · rw [untold]
    exact owned _ rfl

theorem enterSite_follows (paired : Paired activation call) {site : CallSite} {slot : Nat}
    {callee : Evaluation.Callee} {receiver : Option Handle} {args : Variables} {frame : Frame}
    {machine : Machine} {rest : Frame → Course → Ending Value}
    (known : ∀ function kept, callee = .found function kept →
      let call := (Invocation.entered
        ⟨function, receiver, args, some site.span, activation.program⟩ (frame.child slot)).1
      activation.code.programs.function? call.program call.function = some function)
    (continued : ∀ function child, (∃ call, child.call? = some call ∧
        activation.code.programs.function? call.program call.function = some function) →
      ∀ after, Effects activation.code activation.context machine.world after → ∀ yields,
        rest (frame.withChild slot child) ⟨after, yields⟩ =
          call ⟨function, receiver, args, some site.span, activation.program⟩ child
            ⟨after, yields⟩) :
    Follows activation.context machine.world
      (Remainder.enter (sceneOf activation call) site slot callee receiver args frame) rest
      (Evaluation.enterSite activation site slot callee receiver args frame machine) := by
  cases callee with
  | gone => exact fun _ => rfl
  | notFound cause => exact fun _ => rfl
  | found function kept =>
      simp only [Evaluation.enterSite]
      have same := known function kept rfl
      have remembered : Effects activation.code activation.context machine.world
          (machine.world.keepCallee ⟨activation.program, site.offset⟩ kept) :=
        keepCallee_effects ..
      have entered : ∀ yields, Remainder.enter (sceneOf activation call) site slot
          (.found function kept) receiver args frame ⟨machine.world, yields⟩ =
            call ⟨function, receiver, args, some site.span, activation.program⟩ (frame.child slot)
              ⟨machine.world.keepCallee ⟨activation.program, site.offset⟩ kept, yields⟩ :=
        fun _ => rfl
      generalize machine.world.keepCallee ⟨activation.program, site.offset⟩ kept = world
        at remembered entered ⊢
      have resumes := continued function
      generalize (⟨function, receiver, args, some site.span, activation.program⟩ : Invocation) =
        invocation at same resumes entered ⊢
      have reached := paired.follows invocation (frame.child slot) { machine with world }
      have moved := paired.moves invocation (frame.child slot) { machine with world }
      have named := paired.named invocation (frame.child slot) { machine with world }
      generalize activation.call invocation (frame.child slot) { machine with world } = ended
        at reached moved named ⊢
      obtain ⟨progress, after⟩ := ended
      cases progress with
      | done value => exact fun yields => (entered yields).trans (reached yields)
      | failed error => exact fun yields => (entered yields).trans (reached yields)
      | suspended child =>
          obtain ⟨count, counted, continues⟩ := reached
          obtain ⟨step, held⟩ := named child after rfl
          refine ⟨count, counted, fun yields => ?_⟩
          rw [entered yields, resumes child ⟨_, held, same⟩ after.world
            (remembered.trans moved.effects)]
          exact continues yields

theorem callee_of_loaded {code : Code} {frame : Frame} {function : Function}
    (kept : Option FunctionId) (resolved : Except CompileCause Function × Option FunctionId)
    (loaded : ∃ call, frame.call? = some call ∧
      code.programs.function? call.program call.function = some function) :
    Evaluation.callee code frame kept resolved = .found function kept := by
  obtain ⟨call, held, found⟩ := loaded
  simp only [Evaluation.callee, held, found]

theorem callSite_follows (paired : Paired activation call) (site : CallSite)
    (types : List DataType) (frame : Frame) (machine : Machine) :
    Follows activation.context machine.world
      (Remainder.callSite (sceneOf activation call) site types frame)
      (Remainder.callSite (sceneOf activation call) site types)
      (Evaluation.callSite activation site types frame machine) := by
  unfold Evaluation.callSite
  by_cases receives : site.hasReceiver = true
  · simp only [receives, if_true]
    cases given : Evaluation.receiver machine.world.heap site frame.temps with
    | error error =>
        intro yields
        simp only [Remainder.callSite, receives, if_true, given]
        rfl
    | ok found =>
        obtain ⟨handle, className⟩ := found
        refine Follows.of_eq (fun yields => ?_) (enterSite_follows paired ?_ ?_)
        · simp only [Remainder.callSite, receives, if_true, given]
        · intro function kept chosen
          exact callee_found chosen (fun _ resolved => paired.consistent.resolveMethod resolved) ..
        · intro function child loaded after effects yields
          obtain ⟨current, again⟩ := receiver_live effects given
          simp only [Remainder.callSite, receives, if_true, Frame.temps_withChild, again,
            Frame.child_withChild, callee_of_loaded none _ loaded, Remainder.enter,
            World.keepCallee]
  · simp only [receives, Bool.false_eq_true, if_false]
    refine Follows.of_eq (fun yields => ?_) (enterSite_follows paired ?_ ?_)
    · simp only [Remainder.callSite, receives, Bool.false_eq_true, if_false]
    · intro function kept chosen
      exact callee_found chosen (fun _ resolved => paired.consistent.resolveCall resolved) ..
    · intro function child loaded after effects yields
      simp only [Remainder.callSite, receives, Bool.false_eq_true, if_false,
        Frame.temps_withChild, Frame.child_withChild, callee_of_loaded none _ loaded,
        Remainder.enter, World.keepCallee]

theorem binary_follows {vars : Variables} {lhs rhs : Expr} (type : DataType) (span : Span)
    (operator : Operator) (frame : Frame) (machine : Machine)
    (left : ∀ frame machine, Follows activation.context machine.world
      (Remainder.expr (sceneOf activation call) vars lhs frame)
      (Remainder.expr (sceneOf activation call) vars lhs)
      (Evaluation.evalExpr activation vars lhs frame machine))
    (right : ∀ frame machine, Follows activation.context machine.world
      (Remainder.expr (sceneOf activation call) vars rhs frame)
      (Remainder.expr (sceneOf activation call) vars rhs)
      (Evaluation.evalExpr activation vars rhs frame machine)) :
    Follows activation.context machine.world
      (Remainder.expr (sceneOf activation call) vars (.binary type span operator lhs rhs) frame)
      (Remainder.expr (sceneOf activation call) vars (.binary type span operator lhs rhs))
      (Evaluation.evalExpr activation vars (.binary type span operator lhs rhs) frame machine) := by
  have first := operand_follows 0 left frame.startEval machine
  let result (frame : Frame) (course : Course) : Ending Value :=
    ⟨Evaluation.operate operator lhs.type rhs.type type frame.temps span, course⟩
  let behind (frame : Frame) (course : Course) : Ending Value :=
    (Remainder.operand 1 (Remainder.expr (sceneOf activation call) vars rhs) frame
      course).andThen result
  have unfolded : Remainder.expr (sceneOf activation call) vars
      (.binary type span operator lhs rhs) = fun frame course => (Remainder.operand 0
        (Remainder.expr (sceneOf activation call) vars lhs) frame.startEval course).andThen
          behind := by
    funext frame course
    rw [Remainder.expr]
  rw [Evaluation.evalExpr, unfolded]
  generalize stopped : Evaluation.operand 0 _ _ _ = ended at first ⊢
  obtain ⟨progress, between⟩ := ended
  cases progress with
  | failed error => exact Ended.andThen_failed first
  | suspended stop =>
      have evaluating := (operand_suspended stopped).state.trans frame.state_startEval
      simp only [Follows, Frame.startEval_of_eval evaluating]
      exact Left.andThen first
  | done middle =>
      have passed := operand_further stopped
      refine Ended.andThen_follows first ?_
      have second := operand_follows 1 right middle between
      dsimp only
      generalize stopped : Evaluation.operand 1 _ _ _ = ended at second ⊢
      obtain ⟨progress, after⟩ := ended
      cases progress with
      | done value => exact Ended.andThen_follows second (Follows.ofExcept _ _)
      | failed error => exact Ended.andThen_failed second
      | suspended stop =>
          have further := operand_suspended stopped
          have evaluating : stop.state = .eval :=
            further.state.trans (passed.1.state.trans frame.state_startEval)
          have counted : 0 < stop.temps.length :=
            Nat.lt_of_lt_of_le (passed.2 (Nat.zero_le _)) further.temps
          simp only [Follows, Frame.startEval_of_eval evaluating, Remainder.operand_passed counted,
            Ending.pure, Ending.andThen_ok]
          exact Left.andThen second

theorem call_follows (paired : Paired activation call) {vars : Variables} {operands : List Expr}
    (type : DataType) (span : Span) (site : CallSite) (frame : Frame) (machine : Machine)
    (computed : ∀ frame machine, 0 ≤ frame.temps.length → Follows activation.context machine.world
      (Remainder.exprs (sceneOf activation call) vars 0 operands frame)
      (Remainder.exprs (sceneOf activation call) vars 0 operands)
      (Evaluation.evalOperands activation vars 0 operands frame machine)) :
    Follows activation.context machine.world
      (Remainder.expr (sceneOf activation call) vars (.call type span site operands) frame)
      (Remainder.expr (sceneOf activation call) vars (.call type span site operands))
      (Evaluation.evalExpr activation vars (.call type span site operands) frame machine) := by
  have first := computed frame.startEval machine (Nat.zero_le _)
  have unfolded : Remainder.expr (sceneOf activation call) vars (.call type span site operands) =
      fun frame course => (Remainder.exprs (sceneOf activation call) vars 0 operands
        frame.startEval course).andThen
          (Remainder.callSite (sceneOf activation call) site (operands.map Expr.type)) := by
    funext frame course
    rw [Remainder.expr]
  rw [Evaluation.evalExpr, unfolded]
  generalize stopped : Evaluation.evalOperands _ _ _ _ _ _ = ended at first ⊢
  obtain ⟨progress, between⟩ := ended
  cases progress with
  | failed error => exact Ended.andThen_failed first
  | suspended left =>
      have evaluating := (evalOperands_suspended stopped).state.trans frame.state_startEval
      simp only [Follows, Frame.startEval_of_eval evaluating]
      exact Left.andThen first
  | done middle =>
      obtain ⟨further, counted⟩ := evalOperands_further stopped
      refine Ended.andThen_follows first (Follows.of_rest ?_
        (callSite_follows paired site (operands.map Expr.type) middle between))
      intro left after suspended
      obtain ⟨child, rfl⟩ := callSite_suspended suspended
      let reentered := middle.withChild (operands.map Expr.type).length child
      have evaluating : reentered.state = .eval := further.state.trans frame.state_startEval
      have complete : 0 + operands.length ≤ reentered.temps.length := counted (Nat.zero_le _)
      funext course
      rw [Frame.startEval_of_eval evaluating, Remainder.exprs_passed complete course]
      rfl

mutual

theorem evalExpr_follows (paired : Paired activation call) (vars : Variables) :
    ∀ (expr : Expr) (frame : Frame) (machine : Machine),
      Follows activation.context machine.world
        (Remainder.expr (sceneOf activation call) vars expr frame)
        (Remainder.expr (sceneOf activation call) vars expr)
        (Evaluation.evalExpr activation vars expr frame machine)
  | .literal type span value, frame, machine => by
      rw [Evaluation.evalExpr]
      intro yields
      rw [Remainder.expr]
      rfl
  | .var type span target, frame, machine => by
      rw [Evaluation.evalExpr]
      refine Follows.of_eq (fun yields => ?_) (Follows.ofExcept _ _)
      rw [Remainder.expr]
  | .negate type span inner, frame, machine => by
      have reached := operand_follows 0 (evalExpr_follows paired vars inner) frame.startEval machine
      have unfolded : Remainder.expr (sceneOf activation call) vars (.negate type span inner) =
          fun frame course => (Remainder.operand 0
            (Remainder.expr (sceneOf activation call) vars inner) frame.startEval course).andThen
              fun frame course =>
                ⟨Evaluation.negate (frame.temps.getLast?.getD .void) type span, course⟩ := by
        funext frame course
        rw [Remainder.expr]
      rw [Evaluation.evalExpr, unfolded]
      generalize stopped : Evaluation.operand _ _ _ _ = ended at reached ⊢
      obtain ⟨progress, after⟩ := ended
      cases progress with
      | done value => exact Ended.andThen_follows reached (Follows.ofExcept _ _)
      | failed error => exact Ended.andThen_failed reached
      | suspended left =>
          have evaluating := (operand_suspended stopped).state.trans frame.state_startEval
          simp only [Follows, Frame.startEval_of_eval evaluating]
          exact Left.andThen reached
  | .binary type span operator lhs rhs, frame, machine =>
      binary_follows type span operator frame machine (evalExpr_follows paired vars lhs)
        (evalExpr_follows paired vars rhs)
  | .call type span site operands, frame, machine =>
      call_follows paired type span site frame machine
        (evalOperands_follows paired vars 0 operands)

theorem evalOperands_follows (paired : Paired activation call) (vars : Variables) (slot : Nat) :
    ∀ (operands : List Expr) (frame : Frame) (machine : Machine), slot ≤ frame.temps.length →
      Follows activation.context machine.world
        (Remainder.exprs (sceneOf activation call) vars slot operands frame)
        (Remainder.exprs (sceneOf activation call) vars slot operands)
        (Evaluation.evalOperands activation vars slot operands frame machine)
  | [], frame, machine, _ => by
      rw [Evaluation.evalOperands]
      intro yields
      rw [Remainder.exprs]
      rfl
  | first :: rest, frame, machine, bound => by
      have reached := operand_follows slot (evalExpr_follows paired vars first) frame machine
      have unfolded : Remainder.exprs (sceneOf activation call) vars slot (first :: rest) =
          fun frame course => (Remainder.operand slot
            (Remainder.expr (sceneOf activation call) vars first) frame course).andThen
              (Remainder.exprs (sceneOf activation call) vars (slot + 1) rest) := by
        funext frame course
        rw [Remainder.exprs]
      rw [Evaluation.evalOperands, unfolded]
      generalize stopped : Evaluation.operand _ _ _ _ = ended at reached ⊢
      obtain ⟨progress, between⟩ := ended
      cases progress with
      | failed error => exact Ended.andThen_failed reached
      | suspended left => exact Left.andThen reached
      | done middle =>
          have passed := (operand_further stopped).2 bound
          refine Ended.andThen_follows reached (Follows.of_rest ?_
            (evalOperands_follows paired vars (slot + 1) rest middle between passed))
          intro left after suspended
          have counted : slot < left.temps.length :=
            Nat.lt_of_lt_of_le passed (evalOperands_suspended suspended).temps
          funext course
          rw [Remainder.operand_passed counted]
          rfl

end

section

variable {context : ContextId} {world : World} {here : Course → Executed}
  {result : Progress Completion × RunState}

theorem Executes.of_eq {between : World} {instead : Course → Executed}
    {rest : Frame → Variables → Course → Executed}
    (same : ∀ yields, here ⟨world, yields⟩ = instead ⟨between, yields⟩)
    (executes : Executes context between instead rest result) :
    Executes context world here rest result := by
  obtain ⟨progress, after⟩ := result
  cases progress with
  | done completion => exact fun yields => (same yields).trans (executes yields)
  | failed error => exact fun yields => (same yields).trans (executes yields)
  | suspended left =>
      obtain ⟨count, counted, continues⟩ := executes
      exact ⟨count, counted, fun yields => (same yields).trans (continues yields)⟩

theorem Executes.of_rest {rest instead : Frame → Variables → Course → Executed}
    (same : ∀ left state, result = (.suspended left, state) →
      rest left state.vars = instead left state.vars)
    (executes : Executes context world here instead result) :
    Executes context world here rest result := by
  obtain ⟨progress, after⟩ := result
  cases progress with
  | done completion => exact executes
  | failed error => exact executes
  | suspended left =>
      rw [Executes, same left after rfl]
      exact executes

theorem Ended.andThen_executes {α : Type} {value : α} {first : Course → Ending α}
    {machine : Machine} {next : α → Course → Executed}
    {rest : Frame → Variables → Course → Executed} (ended : Ended world machine first (.ok value))
    (executes : Executes context machine.world (next value) rest result) :
    Executes context world (fun course => (first course).andThen next) rest result := by
  obtain ⟨progress, after⟩ := result
  cases progress with
  | done completion => exact ended.andThen executes
  | failed error => exact ended.andThen executes
  | suspended left => exact ended.andThen_left executes

end

theorem evalThen_follows (paired : Paired activation call) {stmt : Stmt} {expr : Expr}
    {frame : Frame} {state : RunState}
    {continueWith : Value → RunState → Progress Completion × RunState}
    {next : Variables → Value → Course → Executed}
    (unfolded : ∀ left vars, left = frame ∨ left.state = .eval →
      Remainder.stmt (sceneOf activation call) stmt left vars = fun course =>
        (Remainder.expr (sceneOf activation call) vars expr left course).andThen (next vars))
    (continued : ∀ value machine, Executes activation.context machine.world
      (next state.vars value) (Remainder.stmt (sceneOf activation call) stmt)
      (continueWith value { state with machine })) :
    Executes activation.context state.machine.world
      (Remainder.stmt (sceneOf activation call) stmt frame state.vars)
      (Remainder.stmt (sceneOf activation call) stmt)
      (Evaluation.evalThen activation expr frame state continueWith) := by
  have reached := evalExpr_follows paired state.vars expr frame state.machine
  rw [unfolded frame state.vars (Or.inl rfl)]
  unfold Evaluation.evalThen
  generalize stopped : Evaluation.evalExpr _ _ _ _ _ = ended at reached ⊢
  obtain ⟨progress, after⟩ := ended
  cases progress with
  | done value => exact Ended.andThen_executes reached (continued value after)
  | failed error => exact Ended.andThen_failed reached
  | suspended left =>
      simp only [Executes, unfolded left state.vars (Or.inr (evalExpr_suspended stopped))]
      exact Left.andThen reached

theorem waitStep_follows {span : Span} {count : Expr} (frame : Frame) (state : RunState)
    (remaining : Nat) :
    Executes activation.context state.machine.world
      (fun course => .pure (.next, state.vars) (Direct.passTime remaining course))
      (Remainder.stmt (sceneOf activation call) (.wait span count))
      (Evaluation.waitStep frame state remaining) := by
  cases remaining with
  | zero => exact fun yields => rfl
  | succ remaining =>
      refine ⟨1, Or.inl rfl, fun yields => ?_⟩
      rw [Remainder.stmt]
      simp only [Direct.passTime, Nat.add_assoc, Nat.add_comm remaining]

theorem assign_follows (target : Target) (span : Span) (value : Value) (state : RunState)
    (rest : Frame → Variables → Course → Executed) :
    Executes activation.context state.machine.world
      (Direct.assign state.vars target span value) rest
      (Evaluation.assign target span value state) := by
  unfold Evaluation.assign
  cases wrote : Evaluation.writeVariable state.machine.world.heap state.vars target value span with
  | error error =>
      intro yields
      simp only [Direct.assign, wrote, Ending.fail]
  | ok written =>
      obtain ⟨heap, vars⟩ := written
      intro yields
      simp only [Direct.assign, wrote, Ending.pure]
      rfl

theorem execStmts_suspended {stmts : List Stmt} :
    ∀ {place : Nat} {frame left : Frame} {state after : RunState},
      Evaluation.execStmts activation place stmts frame state = (.suspended left, after) →
      frame.state = .block frame.nextStatement →
      left.state = .block left.nextStatement ∧ frame.nextStatement ≤ left.nextStatement := by
  induction stmts with
  | nil =>
      intro place frame left state after stopped _
      rw [Evaluation.execStmts] at stopped
      cases stopped
  | cons first rest ih =>
      intro place frame left state after stopped block
      rw [Evaluation.execStmts] at stopped
      split at stopped
      · exact ih stopped block
      · rename_i reached
        split at stopped
        · obtain ⟨again, further⟩ := ih stopped rfl
          refine ⟨again, ?_⟩
          have next : place + 1 ≤ left.nextStatement := further
          omega
        · cases stopped
          exact ⟨block, Nat.le_refl _⟩
        · rename_i ended
          exact absurd stopped (ended _ _)

mutual

theorem execStmt_follows (paired : Paired activation call) :
    ∀ (stmt : Stmt) (frame : Frame) (state : RunState),
      Executes activation.context state.machine.world
        (Remainder.stmt (sceneOf activation call) stmt frame state.vars)
        (Remainder.stmt (sceneOf activation call) stmt)
        (Evaluation.execStmt activation stmt frame state)
  | .block span body, frame, state => by
      have reached := execStmts_follows paired 0 body
        { frame with state := .block frame.nextStatement } state rfl
      rw [Evaluation.execStmt]
      refine Executes.of_eq (fun yields => ?_) (Executes.of_rest ?_ reached)
      · rw [Remainder.stmt]
      · intro left after suspended
        have block := (execStmts_suspended suspended rfl).1
        funext course
        rw [Remainder.stmt, Frame.block_of_block block]
  | .return span none, frame, state => by
      rw [Evaluation.execStmt]
      intro yields
      rw [Remainder.stmt]
      rfl
  | .return span (some expr), frame, state => by
      rw [Evaluation.execStmt]
      have unfolded : ∀ left vars, Remainder.stmt (sceneOf activation call)
          (.return span (some expr)) left vars = fun course =>
            (Remainder.expr (sceneOf activation call) vars expr left course).andThen fun value =>
              .pure (.return value, vars) := by
        intro left vars
        funext course
        rw [Remainder.stmt]
      exact evalThen_follows paired (fun left vars _ => unfolded left vars) fun _ _ _ => rfl
  | .wait span count, frame, state => by
      rw [Evaluation.execStmt]
      split
      · rename_i remaining waits
        refine Executes.of_eq (fun yields => ?_) (waitStep_follows frame state remaining)
        rw [Remainder.stmt, waits]
      · rename_i starts
        have unfolded : ∀ left vars, left = frame ∨ left.state = .eval →
            Remainder.stmt (sceneOf activation call) (.wait span count) left vars = fun course =>
              (Remainder.expr (sceneOf activation call) vars count left course).andThen
                fun value course => .pure (.next, vars) (Direct.passTime value.waitCount course) := by
          intro left vars either
          funext course
          rw [Remainder.stmt]
          split
          · rename_i remaining waits
            rcases either with rfl | evaluating
            · exact absurd waits (starts remaining)
            · rw [evaluating] at waits
              cases waits
          · rfl
        exact evalThen_follows paired unfolded fun value machine =>
          waitStep_follows frame.clearProgress { state with machine } value.waitCount
  | .declare span id name type none, frame, state => by
      rw [Evaluation.execStmt]
      intro yields
      rw [Remainder.stmt]
      rfl
  | .declare span id name type (some expr), frame, state => by
      rw [Evaluation.execStmt]
      have unfolded : ∀ left vars, Remainder.stmt (sceneOf activation call)
          (.declare span id name type (some expr)) left vars = fun course =>
            (Remainder.expr (sceneOf activation call) vars expr left course).andThen
              fun value course => match Evaluation.convert value type span with
                | .ok stored => Direct.declare vars id (.holding name type stored) course
                | .error error => .fail error course := by
        intro left vars
        rfl
      refine evalThen_follows paired (fun left vars _ => unfolded left vars) fun value _ => ?_
      cases Evaluation.convert value type span with
      | ok stored => exact fun yields => rfl
      | error error => exact fun yields => rfl
  | .assign span target expr, frame, state => by
      rw [Evaluation.execStmt]
      have unfolded : ∀ left vars, Remainder.stmt (sceneOf activation call)
          (.assign span target expr) left vars = fun course =>
            (Remainder.expr (sceneOf activation call) vars expr left course).andThen
              (Direct.assign vars target span) := by
        intro left vars
        funext course
        rw [Remainder.stmt]
      exact evalThen_follows paired (fun left vars _ => unfolded left vars) fun value machine =>
        assign_follows target span value { state with machine } _
  | .expr expr, frame, state => by
      rw [Evaluation.execStmt]
      have unfolded : ∀ left vars, Remainder.stmt (sceneOf activation call) (.expr expr) left vars =
          fun course => (Remainder.expr (sceneOf activation call) vars expr left course).andThen
            fun _ => .pure (.next, vars) := by
        intro left vars
        funext course
        rw [Remainder.stmt]
      exact evalThen_follows paired (fun left vars _ => unfolded left vars) fun _ _ _ => rfl

theorem execStmts_follows (paired : Paired activation call) (place : Nat) :
    ∀ (stmts : List Stmt) (frame : Frame) (state : RunState),
      frame.state = .block frame.nextStatement →
      Executes activation.context state.machine.world
        (Remainder.stmts (sceneOf activation call) place stmts frame state.vars)
        (Remainder.stmts (sceneOf activation call) place stmts)
        (Evaluation.execStmts activation place stmts frame state)
  | [], frame, state, _ => by
      rw [Evaluation.execStmts]
      intro yields
      rw [Remainder.stmts]
      rfl
  | first :: rest, frame, state, block => by
      rw [Evaluation.execStmts]
      by_cases passed : place < frame.nextStatement
      · rw [if_pos passed]
        refine Executes.of_eq (fun yields => ?_) (Executes.of_rest ?_
          (execStmts_follows paired (place + 1) rest frame state block))
        · rw [Remainder.stmts, if_pos passed]
        · intro left after suspended
          have further := (execStmts_suspended suspended block).2
          funext course
          rw [Remainder.stmts, if_pos (Nat.lt_of_lt_of_le passed further)]
      · have reached := execStmt_follows paired first (frame.child place) state
        let behind (finished : Frame) (executed : Completion × Variables) (course : Course) :
            Executed :=
          match executed with
          | (.next, vars) =>
              Remainder.stmts (sceneOf activation call) (place + 1) rest
                { finished with state := .block (place + 1) } vars course
          | (.return value, vars) => .pure (.return value, vars) course
        have unfolded : ∀ between : Frame, ¬ place < between.nextStatement → ∀ vars,
            Remainder.stmts (sceneOf activation call) place (first :: rest) between vars =
              fun course => (Remainder.stmt (sceneOf activation call) first (between.child place)
                vars course).andThen (behind (between.withoutChild place)) := by
          intro between waiting vars
          funext course
          rw [Remainder.stmts]
          exact if_neg waiting
        rw [if_neg passed, unfolded frame passed]
        generalize stopped : Evaluation.execStmt _ _ _ _ = ended at reached ⊢
        obtain ⟨progress, after⟩ := ended
        cases progress with
        | failed error => exact Ended.andThen_failed reached
        | suspended child =>
            have waiting : ¬ place < (frame.withChild place child).nextStatement := passed
            simp only [Executes, unfolded _ waiting, Frame.child_withChild,
              Frame.withoutChild_withChild]
            exact Left.andThen reached
        | done completion =>
            cases completion with
            | «return» value =>
                exact Ended.andThen reached fun _ => rfl
            | next =>
                refine Ended.andThen_executes reached (Executes.of_rest ?_
                  (execStmts_follows paired (place + 1) rest _ after rfl))
                intro left final suspended
                have further : place < left.nextStatement :=
                  (execStmts_suspended suspended rfl).2
                funext course
                rw [Remainder.stmts, if_pos further]

end

def goOn (scene : Remainder.Scene) (invocation : Invocation) (frame : Frame) :
    Course → Ending Value :=
  let (inner, frame) := Invocation.entered invocation frame
  Remainder.steps scene invocation inner frame

theorem goOn_of_call {scene : Remainder.Scene} {invocation : Invocation} {frame : Frame}
    {inner : Call} (held : frame.call? = some inner) :
    goOn scene invocation frame = Remainder.steps scene invocation inner frame := by
  simp only [goOn, Invocation.entered, held]

theorem tryLock_hinders {table refused : GuardTable} {className : String} {context : ContextId}
    {machine : Machine} (denied : table.tryLock className context = (false, refused))
    (held : machine.world.guards = refused) : Hindered context machine := by
  simp only [GuardTable.tryLock, Prod.mk.injEq] at denied
  obtain ⟨denied, rfl⟩ := denied
  generalize (table.guard? className).getD {} = guard at denied held
  cases holds : guard.holder with
  | none => simp [Guard.tryAcquire, holds] at denied
  | some holder =>
      by_cases own : holder = context
      · simp [Guard.tryAcquire, holds, own] at denied
      · refine Or.inr ⟨className, (guard.tryAcquire context table.maxWaiters).2, holder, ?_, ?_, own⟩
        · rw [held]
          exact GuardTable.lookup_put_self ..
        · simp only [Guard.tryAcquire, holds, own, if_false]
          split
          · rfl
          · exact holds

theorem unlock_heldGuard (context : ContextId) (inner : Call) (machine : Machine) (yields : Nat) :
    Direct.unlock context inner.heldGuard? ⟨machine.world, yields⟩ =
      ⟨(Invocation.releaseGuard context inner machine).world, yields⟩ := by
  cases held : inner.heldGuard? with
  | none => simp only [Direct.unlock, Invocation.releaseGuard, held]
  | some owner => simp only [Direct.unlock, Invocation.releaseGuard, held, Course.withGuards]

section

variable (invocation : Invocation) (inner : Call) (vars : Variables) (frame : Frame)
  (machine : Machine)

theorem bodyStep_follows (paired : Paired activation call) (runs : inner.step = .runBody) :
    Follows activation.context machine.world
      (Remainder.bodyStep (sceneOf activation call) invocation inner vars frame)
      (goOn (sceneOf activation call) invocation)
      (Invocation.bodyStep activation invocation inner vars frame machine) := by
  have resumed : ∀ left : Frame, left.state = .call inner →
      goOn (sceneOf activation call) invocation left =
        Remainder.bodyStep (sceneOf activation call) invocation inner left.vars left := by
    intro left held
    have named : left.call? = some inner := by simp only [Frame.call?, held]
    rw [goOn_of_call named]
    funext course
    simp only [Remainder.steps, runs]
  unfold Invocation.bodyStep
  dsimp only
  cases asked : machine.gate.ask with
  | mk allowed gate =>
      cases allowed with
      | false =>
          -- A call that the gate declines has yielded for no wait.
          refine ⟨0, Or.inr ⟨rfl, Or.inl (Gate.ask_declined asked)⟩, fun yields => ?_⟩
          rw [resumed _ rfl]
          rfl
      | true =>
          let finish (ended : Executed) : Ending Value :=
            let ended := ended.andThen fun executed course =>
              ⟨Invocation.result invocation.function executed.1, course⟩
            { ended with course := Direct.unlock activation.context inner.heldGuard? ended.course }
          let entered (frame : Frame) : Frame :=
            { frame with state := .block frame.nextStatement }
          have unfolded : ∀ vars frame course,
              Remainder.bodyStep (sceneOf activation call) invocation inner vars frame course =
                finish (Remainder.stmts (sceneOf activation call) 0 invocation.function.body.stmts
                  (entered (frame.child 0)) vars course) := fun _ _ _ => rfl
          have reached := execStmts_follows paired 0 invocation.function.body.stmts
            (entered (frame.child 0)) ⟨vars, { machine with gate }⟩ rfl
          -- Entering the block of a frame that was suspended in it changes nothing about the frame.
          have suspended : ∀ left state, Evaluation.execStmts activation 0
              invocation.function.body.stmts (entered (frame.child 0))
                ⟨vars, { machine with gate }⟩ = (.suspended left, state) → entered left = left :=
            fun left state stopped => Frame.block_of_block (execStmts_suspended stopped rfl).1
          have blocked : Evaluation.execBlock activation invocation.function.body.stmts
              (Frame.child { frame with state := .call inner, vars } 0)
                ⟨vars, { machine with gate }⟩ =
              Evaluation.execStmts activation 0 invocation.function.body.stmts
                (entered (frame.child 0)) ⟨vars, { machine with gate }⟩ := rfl
          simp only [Bool.not_true, Bool.false_eq_true, if_false, blocked]
          generalize Evaluation.execStmts _ _ _ _ _ = ended at reached suspended ⊢
          obtain ⟨progress, after⟩ := ended
          cases progress with
          | done completion =>
              have ends : ∀ yields,
                  Remainder.bodyStep (sceneOf activation call) invocation inner vars frame
                    ⟨machine.world, yields⟩ = ⟨Invocation.result invocation.function completion,
                      ⟨(Invocation.releaseGuard activation.context inner after.machine).world,
                        yields⟩⟩ := by
                intro yields
                rw [unfolded, reached yields]
                simp only [finish, Ending.andThen_ok, unlock_heldGuard]
              dsimp only
              cases result : Invocation.result invocation.function completion with
              | ok value => exact fun yields => (ends yields).trans (by rw [result])
              | error error => exact fun yields => (ends yields).trans (by rw [result])
          | failed error =>
              intro yields
              rw [unfolded, reached yields]
              simp only [finish, Ending.andThen_error, unlock_heldGuard]
          | suspended left =>
              obtain ⟨count, counted, continues⟩ := reached
              refine ⟨count, counted, fun yields => ?_⟩
              rw [resumed _ rfl, unfolded, unfolded, continues yields]
              have same : ({ Frame.withChild { frame with state := .call inner, vars } 0 left with
                  vars := after.vars } : Frame).child 0 = left :=
                Frame.child_withChild { frame with state := .call inner, vars } 0 left
              rw [same, suspended left after rfl]

theorem guardStep_follows (paired : Paired activation call) (waits : inner.step = .acquireGuard) :
    Follows activation.context machine.world
      (Remainder.guardStep (sceneOf activation call) invocation inner vars frame)
      (goOn (sceneOf activation call) invocation)
      (Invocation.guardStep activation invocation inner vars frame machine) := by
  have runs : inner.advance.step = .runBody := by
    simp only [Call.advance, CallStep.next, waits]
  unfold Invocation.guardStep
  cases asked : machine.world.guards.tryLock (invocation.function.owner.getD "")
    activation.context with
  | mk taken guards =>
      have locked : ∀ yields, Direct.lock activation.context
          (some (invocation.function.owner.getD "")) ⟨machine.world, yields⟩ =
            ⟨{ machine.world with guards }, yields⟩ := by
        intro yields
        simp only [Direct.lock, asked, Course.withGuards]
      cases taken with
      | true =>
          refine Follows.of_eq (fun yields => ?_) (bodyStep_follows invocation inner.advance vars
            frame { machine with world := { machine.world with guards } } paired runs)
          simp only [Remainder.guardStep, locked]
      | false =>
          refine ⟨0, Or.inr ⟨rfl, tryLock_hinders asked rfl⟩, fun yields => ?_⟩
          have again : Direct.lock activation.context
              (some (invocation.function.owner.getD "")) ⟨{ machine.world with guards }, yields⟩ =
                ⟨{ machine.world with guards }, yields⟩ := by
            simp only [Direct.lock, GuardTable.tryLock_of_refused asked, Course.withGuards]
          have named : Frame.call? { frame with state := .call inner, vars } = some inner := rfl
          rw [goOn_of_call named]
          simp only [Remainder.steps, waits, Remainder.guardStep, locked, Nat.add_zero, again]
          rfl

theorem instanceStep_follows (paired : Paired activation call)
    (binds : inner.step = .bindInstance) :
    Follows activation.context machine.world
      (Remainder.instanceStep (sceneOf activation call) invocation inner vars frame)
      (goOn (sceneOf activation call) invocation)
      (Invocation.instanceStep activation invocation inner vars frame machine) := by
  unfold Invocation.instanceStep
  cases bound : Invocation.bindInstance activation.code invocation vars machine.world with
  | error error =>
      intro yields
      simp only [Remainder.instanceStep, bound, Ending.fail]
  | ok done =>
      obtain ⟨vars, world⟩ := done
      dsimp only
      by_cases guarded : inner.advance.step = .acquireGuard
      · rw [if_pos guarded]
        refine Follows.of_eq (fun yields => ?_) (guardStep_follows invocation inner.advance vars
          frame { machine with world } paired guarded)
        simp only [Remainder.instanceStep, bound, if_pos guarded]
      · rw [if_neg guarded]
        have runs : inner.advance.step = .runBody := by
          simp only [Call.advance, CallStep.next, binds] at guarded ⊢
          split at guarded
          · exact absurd rfl guarded
          · rw [if_neg (by assumption)]
        refine Follows.of_eq (fun yields => ?_) (bodyStep_follows invocation inner.advance vars
          frame { machine with world } paired runs)
        simp only [Remainder.instanceStep, bound, if_neg guarded]

theorem paramsStep_follows (paired : Paired activation call) (binds : inner.step = .bindParams) :
    Follows activation.context machine.world
      (Remainder.paramsStep (sceneOf activation call) invocation inner vars frame)
      (goOn (sceneOf activation call) invocation)
      (Invocation.paramsStep activation invocation inner vars frame machine) := by
  unfold Invocation.paramsStep
  cases bound : invocation.function.params.bind invocation.args vars with
  | mk vars failure =>
      cases failure with
      | some error =>
          intro yields
          simp only [Remainder.paramsStep, bound, Ending.fail]
      | none =>
          dsimp only
          by_cases further : inner.advance.step = .bindInstance
          · rw [if_pos further]
            refine Follows.of_eq (fun yields => ?_) (instanceStep_follows invocation inner.advance
              vars frame machine paired further)
            simp only [Remainder.paramsStep, bound, if_pos further]
          · rw [if_neg further]
            have runs : inner.advance.step = .runBody := by
              simp only [Call.advance, CallStep.next, binds] at further ⊢
              split at further
              · exact absurd rfl further
              · rw [if_neg (by assumption)]
            refine Follows.of_eq (fun yields => ?_) (bodyStep_follows invocation inner.advance
              vars frame machine paired runs)
            simp only [Remainder.paramsStep, bound, if_neg further]

theorem steps_follows (paired : Paired activation call) :
    Follows activation.context machine.world
      (Remainder.steps (sceneOf activation call) invocation inner frame)
      (goOn (sceneOf activation call) invocation)
      (Invocation.steps activation invocation inner frame machine) := by
  unfold Invocation.steps
  cases at_ : inner.step with
  | bindParams =>
      refine Follows.of_eq (fun yields => ?_)
        (paramsStep_follows invocation inner frame.vars frame machine paired at_)
      simp only [Remainder.steps, at_]
  | bindInstance =>
      refine Follows.of_eq (fun yields => ?_)
        (instanceStep_follows invocation inner frame.vars frame machine paired at_)
      simp only [Remainder.steps, at_]
  | acquireGuard =>
      refine Follows.of_eq (fun yields => ?_)
        (guardStep_follows invocation inner frame.vars frame machine paired at_)
      simp only [Remainder.steps, at_]
  | runBody =>
      refine Follows.of_eq (fun yields => ?_)
        (bodyStep_follows invocation inner frame.vars frame machine paired at_)
      simp only [Remainder.steps, at_]

end

end

section

variable {activation : Activation} {invocation : Invocation} {inner : Call} {vars : Variables}
  {frame left : Frame} {machine after : Machine}

theorem bodyStep_named (stopped : Invocation.bodyStep activation invocation inner vars frame
    machine = (.suspended left, after)) : ∃ step, left.call? = some { inner with step } := by
  unfold Invocation.bodyStep at stopped
  dsimp only at stopped
  split at stopped
  · cases stopped
    exact ⟨inner.step, rfl⟩
  · split at stopped
    · cases stopped
      exact ⟨inner.step, rfl⟩
    · rename_i completion _ _
      cases result : Invocation.result invocation.function completion <;>
        simp [result, Progress.ofExcept] at stopped
    · cases stopped

theorem guardStep_named (stopped : Invocation.guardStep activation invocation inner vars frame
    machine = (.suspended left, after)) : ∃ step, left.call? = some { inner with step } := by
  unfold Invocation.guardStep at stopped
  dsimp only at stopped
  split at stopped
  · have named := bodyStep_named stopped
    exact named
  · cases stopped
    exact ⟨inner.step, rfl⟩

theorem instanceStep_named (stopped : Invocation.instanceStep activation invocation inner vars
    frame machine = (.suspended left, after)) : ∃ step, left.call? = some { inner with step } := by
  unfold Invocation.instanceStep at stopped
  split at stopped
  · cases stopped
  · dsimp only at stopped
    split at stopped
    · have named := guardStep_named stopped
      exact named
    · have named := bodyStep_named stopped
      exact named

theorem paramsStep_named (stopped : Invocation.paramsStep activation invocation inner vars frame
    machine = (.suspended left, after)) : ∃ step, left.call? = some { inner with step } := by
  unfold Invocation.paramsStep at stopped
  split at stopped
  · cases stopped
  · dsimp only at stopped
    split at stopped
    · have named := instanceStep_named stopped
      exact named
    · have named := bodyStep_named stopped
      exact named

theorem steps_named (stopped : Invocation.steps activation invocation inner frame machine =
    (.suspended left, after)) : ∃ step, left.call? = some { inner with step } := by
  unfold Invocation.steps at stopped
  split at stopped
  · exact paramsStep_named stopped
  · exact instanceStep_named stopped
  · exact guardStep_named stopped
  · exact bodyStep_named stopped

end

section

variable {code : Code} {context : ContextId} {depth : Nat} {invocation : Invocation}
  {frame : Frame}

theorem run_named {left : Frame} {machine after : Machine}
    (stopped : Invocation.run code context depth invocation frame machine =
      (.suspended left, after)) :
    ∃ step, left.call? = some { (Invocation.entered invocation frame).1 with step } := by
  cases depth with
  | zero => cases stopped
  | succ depth =>
      unfold Invocation.run at stopped
      dsimp only at stopped
      split at stopped
      · cases stopped
      · exact steps_named stopped

theorem run_unfolded :
    Remainder.run code context (depth + 1) invocation = fun frame course =>
      let scene : Remainder.Scene :=
        ⟨code, context, invocation.function.program, Remainder.run code context depth⟩
      let ended := goOn scene invocation frame course
      { ended with result := ended.result.mapError (Invocation.reportedError invocation) } := by
  funext frame course
  rw [Remainder.run]
  rfl

theorem Follows.mapError {result : Progress Value × Machine} {world : World}
    {here : Course → Ending Value} {rest : Frame → Course → Ending Value}
    (change : RuntimeError → RuntimeError) (follows : Follows context world here rest result) :
    Follows context world
      (fun course => { here course with result := (here course).result.mapError change })
      (fun left course => { rest left course with
        result := (rest left course).result.mapError change })
      ((fun
        | (.failed error, machine) => (.failed (change error), machine)
        | ended => ended) result) := by
  obtain ⟨progress, after⟩ := result
  cases progress with
  | done value =>
      intro yields
      simp only [follows yields]
      rfl
  | failed error =>
      intro yields
      simp only [follows yields]
      rfl
  | suspended left =>
      obtain ⟨count, counted, continues⟩ := follows
      exact ⟨count, counted, fun yields => by simp only [continues yields]⟩

/-- However far the machine gets with a call, it has done as much of the evaluation in one go. -/
theorem run_follows (consistent : code.Consistent) (context : ContextId) (depth : Nat)
    (invocation : Invocation) (frame : Frame) (machine : Machine) :
    Follows context machine.world (Remainder.run code context depth invocation frame)
      (Remainder.run code context depth invocation)
      (Invocation.run code context depth invocation frame machine) := by
  induction depth generalizing invocation frame machine with
  | zero => exact fun yields => rfl
  | succ depth ih =>
      have paired : Paired ⟨code, context, invocation.function.program,
          Invocation.run code context depth⟩ (Remainder.run code context depth) :=
        ⟨ih, fun _ _ _ _ _ => run_named, run_moves code context depth, consistent⟩
      rw [run_unfolded, Invocation.run]
      cases starts : Invocation.entered invocation frame with
      | mk inner entered =>
          have reached := steps_follows invocation inner entered machine paired
          refine Follows.of_eq (fun yields => ?_)
            (Follows.mapError (Invocation.reportedError invocation) reached)
          simp only [goOn, starts]

end

end ScriptEngine.Following
