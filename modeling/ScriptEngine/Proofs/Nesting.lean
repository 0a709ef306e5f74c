import ScriptEngine.Proofs.Shape
/-! How deep calls nest in frame trees. Running code makes no call below as many calls as may nest:
what it leaves of a frame tree nests no deeper than that, unless the tree did so before. -/

namespace ScriptEngine

def FrameState.calls : FrameState → Nat
  | .call _ => 1
  | .fresh | .block _ | .wait _ | .eval => 0

namespace Frame

mutual

def nesting : Frame → Nat
  | ⟨state, _, _, children⟩ => state.calls + nestings children

def nestings : List (Nat × Frame) → Nat
  | [] => 0
  | (_, child) :: rest => max child.nesting (nestings rest)

end

theorem nesting_eq (frame : Frame) :
    frame.nesting = frame.state.calls + nestings frame.children := by
  cases frame
  rfl

theorem nestings_le (frame : Frame) : nestings frame.children ≤ frame.nesting := by
  rw [nesting_eq]
  exact Nat.le_add_left ..

theorem nesting_child_le (frame : Frame) (slot : Nat) :
    (frame.child slot).nesting ≤ nestings frame.children := by
  unfold child child?
  induction frame.children with
  | nil => exact Nat.le_refl 0
  | cons entry rest ih =>
      obtain ⟨key, held⟩ := entry
      rw [List.lookup_cons, nestings]
      split
      · exact Nat.le_max_left ..
      · exact Nat.le_trans ih (Nat.le_max_right ..)

theorem nestings_place (slot : Nat) (child : Frame) (children : List (Nat × Frame)) :
    nestings (place slot child children) ≤ max child.nesting (nestings children) := by
  induction children with
  | nil => simp [place, nestings]
  | cons entry rest ih =>
      simp only [place]
      split
      · exact Nat.le_refl _
      · simp only [nestings] at ih ⊢
        split <;> simp only [nestings] <;> omega

theorem nestings_filter (keep : Nat × Frame → Bool) (children : List (Nat × Frame)) :
    nestings (children.filter keep) ≤ nestings children := by
  induction children with
  | nil => exact Nat.le_refl _
  | cons entry rest ih =>
      rw [List.filter_cons]
      split <;> simp only [nestings] <;> omega

theorem nesting_withoutChild (frame : Frame) (slot : Nat) :
    (frame.withoutChild slot).nesting ≤ frame.nesting := by
  rw [nesting_eq, nesting_eq]
  exact Nat.add_le_add_left (nestings_filter ..) _

theorem nesting_startEval (frame : Frame) : frame.startEval.nesting ≤ frame.nesting := by
  unfold startEval
  split
  · exact Nat.le_refl _
  · exact Nat.zero_le _

theorem calls_startEval (frame : Frame) : frame.startEval.state.calls = 0 := by
  rw [state_startEval]
  rfl

end Frame

def Nests {α σ : Type} (calls : Nat) (frame : Frame) : Progress α × σ → Prop
  | (.suspended left, _) => left.nesting ≤ max frame.nesting calls
  | (.done _, _) | (.failed _, _) => True

namespace Nests

variable {α σ : Type} {calls : Nat} {frame inner : Frame} {ended : Progress α × σ}

theorem mono (nests : Nests calls inner ended) (lower : inner.nesting ≤ frame.nesting) :
    Nests calls frame ended := by
  obtain ⟨progress, state⟩ := ended
  cases progress with
  | done | failed => trivial
  | suspended left =>
      refine Nat.le_trans (show left.nesting ≤ _ from nests) ?_
      exact Nat.max_le.mpr ⟨Nat.le_trans lower (Nat.le_max_left ..), Nat.le_max_right ..⟩

theorem ofExcept {result : Except RuntimeError α} {state : σ} :
    Nests calls frame (.ofExcept result, state) := by
  cases result <;> trivial

theorem place {slot : Nat} {left : Frame} {state : σ} (calm : frame.state.calls = 0)
    (nests : Nests calls (frame.child slot) (.suspended left, state) (α := α)) :
    (frame.withChild slot left).nesting ≤ max frame.nesting calls := by
  have child := frame.nesting_child_le slot
  have whole := frame.nestings_le
  have placed := Frame.nestings_place slot left frame.children
  have below : left.nesting ≤ max (frame.child slot).nesting calls := nests
  rw [Frame.nesting_eq (frame.withChild slot left)]
  change frame.state.calls + Frame.nestings (Frame.place slot left frame.children) ≤ _
  omega

end Nests

namespace Evaluation

def NestsOperands {σ : Type} (calls : Nat) (frame : Frame) : Progress Frame × σ → Prop
  | (.done next, _) => next.state.calls = 0 ∧ next.nesting ≤ frame.nesting
  | (.suspended left, _) => left.nesting ≤ max frame.nesting calls
  | (.failed _, _) => True

section

variable {activation : Activation} {vars : Variables} {calls : Nat}

theorem operand_nests (slot : Nat) {evaluate : Frame → Machine → Progress Value × Machine}
    (each : ∀ frame machine, Nests calls frame (evaluate frame machine)) {frame : Frame}
    (calm : frame.state.calls = 0) (machine : Machine) :
    NestsOperands calls frame (operand slot evaluate frame machine) := by
  unfold operand
  split
  · exact ⟨calm, Nat.le_refl _⟩
  · have here := each (frame.child slot) machine
    generalize evaluate (frame.child slot) machine = ended at here ⊢
    obtain ⟨progress, machine⟩ := ended
    cases progress with
    | done value =>
        refine ⟨calm, ?_⟩
        have left := frame.nesting_withoutChild slot
        rw [Frame.nesting_eq] at left ⊢
        exact left
    | suspended child => exact Nests.place calm here
    | failed error => trivial

theorem callSite_nests
    (enters : ∀ invocation frame machine, Nests calls frame (activation.call invocation frame machine))
    (site : CallSite) (types : List DataType) {frame : Frame} (calm : frame.state.calls = 0)
    (machine : Machine) : Nests calls frame (callSite activation site types frame machine) := by
  have entered : ∀ (callee : Callee) (receiver : Option Handle) (args : Variables),
      Nests calls frame
        (enterSite activation site types.length callee receiver args frame machine) := by
    intro callee receiver args
    cases callee with
    | gone | notFound => trivial
    | found function kept =>
        unfold enterSite
        dsimp only
        have here := enters ⟨function, receiver, args, some site.span, activation.program⟩
          (frame.child types.length)
          { machine with
            world := machine.world.keepCallee ⟨activation.program, site.offset⟩ kept }
        generalize activation.call _ _ _ = ended at here ⊢
        obtain ⟨progress, machine⟩ := ended
        cases progress with
        | done | failed => trivial
        | suspended child => exact Nests.place calm here
  unfold callSite
  dsimp only
  split
  · split
    · trivial
    · exact entered ..
  · exact entered ..

theorem evalOperands_nests (exprs : List Expr)
    (each : ∀ operand ∈ exprs, ∀ (frame : Frame) (machine : Machine),
      Nests calls frame (evalExpr activation vars operand frame machine)) :
    ∀ (slot : Nat) (frame : Frame) (machine : Machine), frame.state.calls = 0 →
      NestsOperands calls frame (evalOperands activation vars slot exprs frame machine) := by
  induction exprs with
  | nil => exact fun _ _ _ calm => ⟨calm, Nat.le_refl _⟩
  | cons first rest ih =>
      intro slot frame machine calm
      have here := operand_nests slot (each first (List.mem_cons_self ..)) calm machine
      rw [evalOperands]
      generalize operand slot _ frame machine = computed at here ⊢
      obtain ⟨progress, machine⟩ := computed
      cases progress with
      | suspended | failed => exact here
      | done next =>
          have behind := ih (fun operand later => each operand (List.mem_cons_of_mem _ later))
            (slot + 1) next machine here.1
          dsimp only
          generalize evalOperands activation vars _ rest next machine = computed at behind ⊢
          obtain ⟨progress, machine⟩ := computed
          cases progress with
          | done last => exact ⟨behind.1, Nat.le_trans behind.2 here.2⟩
          | suspended left =>
              have inside : Nests calls next ((.suspended left, machine) : Progress Frame × Machine) :=
                behind
              exact inside.mono here.2
          | failed error => trivial

theorem evalExpr_nests (expr : Expr)
    (enters : ∀ invocation frame machine,
      Nests calls frame (activation.call invocation frame machine))
    (frame : Frame) (machine : Machine) :
    Nests calls frame (evalExpr activation vars expr frame machine) := by
  have computes := evalOperands_nests expr.operands
    (fun operand among => evalExpr_nests operand enters) 0 frame.startEval machine
    frame.calls_startEval
  rw [evalExpr_eq]
  generalize evalOperands _ _ _ _ _ _ = computed at computes ⊢
  obtain ⟨progress, machine⟩ := computed
  cases progress with
  | suspended left => exact Nests.mono computes frame.nesting_startEval
  | failed error => trivial
  | done next =>
      have lower := Nat.le_trans computes.2 frame.nesting_startEval
      cases expr with
      | literal => trivial
      | var | negate | binary => exact Nests.ofExcept
      | call type span site operands =>
          exact (callSite_nests enters site _ computes.1 machine).mono lower
termination_by expr.size
decreasing_by exact Expr.size_operand among

variable (enters : ∀ invocation frame machine,
  Nests calls frame (activation.call invocation frame machine))

include enters

theorem evalThen_nests (expr : Expr) (frame : Frame) (state : RunState)
    {continueWith : Value → RunState → Progress Completion × RunState}
    (further : ∀ value state, Nests calls frame (continueWith value state)) :
    Nests calls frame (evalThen activation expr frame state continueWith) := by
  have here := @evalExpr_nests _ state.vars _ expr enters frame state.machine
  unfold evalThen
  generalize evalExpr _ _ _ _ _ = ended at here ⊢
  obtain ⟨progress, machine⟩ := ended
  cases progress with
  | done value => exact further ..
  | suspended left => exact here
  | failed error => trivial

omit enters in
theorem execStmts_nests (stmts : List Stmt)
    (each : ∀ stmt ∈ stmts, ∀ (frame : Frame) (state : RunState),
      Nests calls frame (execStmt activation stmt frame state)) :
    ∀ (place : Nat) (frame : Frame) (state : RunState), frame.state.calls = 0 →
      Nests calls frame (execStmts activation place stmts frame state) := by
  induction stmts with
  | nil => exact fun _ _ _ _ => trivial
  | cons stmt rest ih =>
      intro place frame state calm
      have behind := ih fun other later => each other (List.mem_cons_of_mem _ later)
      rw [execStmts]
      split
      · exact behind (place + 1) frame state calm
      · have here := each stmt (List.mem_cons_self ..) (frame.child place) state
        generalize execStmt activation stmt (frame.child place) state = ended at here ⊢
        obtain ⟨progress, state⟩ := ended
        cases progress with
        | suspended child => exact Nests.place calm here
        | failed error => trivial
        | done completion =>
            cases completion with
            | «return» value => trivial
            | next =>
                refine (behind (place + 1) _ state rfl).mono ?_
                have left := frame.nesting_withoutChild place
                rw [Frame.nesting_eq] at left ⊢
                exact Nat.le_trans (Nat.add_le_add_right (Nat.zero_le _) _) left

omit enters in
theorem execBlock_nests {stmts : List Stmt}
    (each : ∀ stmt ∈ stmts, ∀ (frame : Frame) (state : RunState),
      Nests calls frame (execStmt activation stmt frame state)) (frame : Frame)
    (state : RunState) : Nests calls frame (execBlock activation stmts frame state) := by
  refine (execStmts_nests stmts each 0 { frame with state := .block frame.nextStatement }
    state rfl).mono ?_
  rw [Frame.nesting_eq, Frame.nesting_eq]
  exact Nat.add_le_add_right (Nat.zero_le _) _

omit enters in
theorem waitStep_nests (frame : Frame) (state : RunState) (remaining : Nat) :
    Nests calls frame (waitStep frame state remaining) := by
  cases remaining with
  | zero => trivial
  | succ remaining =>
      refine Nat.le_trans ?_ (Nat.le_max_left ..)
      rw [Frame.nesting_eq, Frame.nesting_eq]
      exact Nat.add_le_add_right (Nat.zero_le _) _

theorem execStmt_nests (stmt : Stmt) (frame : Frame) (state : RunState) :
    Nests calls frame (execStmt activation stmt frame state) := by
  have nested : ∀ stmts : List Stmt, (∀ inner ∈ stmts, inner.size < stmt.size) →
      ∀ inner ∈ stmts, ∀ (frame : Frame) (state : RunState),
        Nests calls frame (execStmt activation inner frame state) :=
    fun stmts smaller inner among => execStmt_nests inner
  cases stmt with
  | block span stmts =>
      rw [execStmt]
      exact execBlock_nests (nested stmts fun inner among =>
        Nat.lt_succ_of_lt (Stmt.size_statement among)) frame state
  | «return» span value =>
      cases value with
      | none => trivial
      | some expr => exact evalThen_nests enters expr frame state fun _ _ => trivial
  | wait span count =>
      rw [execStmt]
      split
      · exact waitStep_nests ..
      · refine evalThen_nests enters count frame state fun value state => ?_
        refine (waitStep_nests frame.clearProgress state value.waitCount).mono ?_
        rw [Frame.nesting_eq, Frame.nesting_eq]
        exact Nat.add_le_add_left (Nat.zero_le _) _
  | declare span id name type init =>
      cases init with
      | none => trivial
      | some expr =>
          rw [execStmt]
          refine evalThen_nests enters expr frame state fun value state => ?_
          cases convert value type span <;> trivial
  | assign span target expr =>
      refine evalThen_nests enters expr frame state fun value state => ?_
      unfold assign
      cases writeVariable state.machine.world.heap state.vars target value span <;> trivial
  | expr value => exact evalThen_nests enters value frame state fun _ _ => trivial
termination_by stmt.size
decreasing_by exact smaller inner among

end

end Evaluation

namespace Invocation

section

variable {activation : Activation} {calls : Nat}
  (enters : ∀ invocation frame machine,
    Nests calls frame (activation.call invocation frame machine))
  (invocation : Invocation) (call : Call) (vars : Variables) {frame : Frame}
  (held : frame.state.calls = 1) (machine : Machine)

include held

theorem nesting_held :
    { frame with state := .call call, vars }.nesting = frame.nesting := by
  rw [Frame.nesting_eq, Frame.nesting_eq, held]
  rfl

include enters

theorem bodyStep_nests :
    Nests (calls + 1) frame (bodyStep activation invocation call vars frame machine) := by
  have same := nesting_held call vars held
  unfold bodyStep
  dsimp only
  split
  · exact Nat.le_trans (Nat.le_of_eq same) (Nat.le_max_left ..)
  · have here := Evaluation.execBlock_nests
      (fun stmt (_ : stmt ∈ invocation.function.body.stmts) =>
        Evaluation.execStmt_nests enters stmt)
      ({ frame with state := .call call, vars }.child 0)
      ⟨vars, { machine with gate := machine.gate.ask.2 }⟩
    generalize Evaluation.execBlock _ _ _ _ = ended at here ⊢
    obtain ⟨progress, state⟩ := ended
    cases progress with
    | failed error => trivial
    | done completion => exact Nests.ofExcept
    | suspended body =>
        have child := { frame with state := .call call, vars }.nesting_child_le 0
        have placed := Frame.nestings_place 0 body frame.children
        have below : body.nesting ≤ max ({ frame with state := .call call, vars }.child 0).nesting
          calls := here
        change 1 + Frame.nestings (Frame.place 0 body frame.children) ≤ _
        rw [Frame.nesting_eq] at same ⊢
        dsimp only at child
        omega

theorem guardStep_nests :
    Nests (calls + 1) frame (guardStep activation invocation call vars frame machine) := by
  unfold guardStep
  dsimp only
  split
  · exact bodyStep_nests enters invocation _ vars held _
  · exact Nat.le_trans (Nat.le_of_eq (nesting_held call vars held)) (Nat.le_max_left ..)

theorem instanceStep_nests :
    Nests (calls + 1) frame (instanceStep activation invocation call vars frame machine) := by
  unfold instanceStep
  split
  · trivial
  · dsimp only
    split
    · exact guardStep_nests enters invocation _ _ held _
    · exact bodyStep_nests enters invocation _ _ held _

theorem paramsStep_nests :
    Nests (calls + 1) frame (paramsStep activation invocation call vars frame machine) := by
  unfold paramsStep
  split
  · trivial
  · dsimp only
    split
    · exact instanceStep_nests enters invocation _ _ held _
    · exact bodyStep_nests enters invocation _ _ held _

theorem steps_nests :
    Nests (calls + 1) frame (steps activation invocation call frame machine) := by
  unfold steps
  split
  · exact paramsStep_nests enters invocation _ _ held _
  · exact instanceStep_nests enters invocation _ _ held _
  · exact guardStep_nests enters invocation _ _ held _
  · exact bodyStep_nests enters invocation _ _ held _

end

/-- However many calls may nest, what is left of a call nests no deeper, or no deeper than before. -/
theorem run_nests (code : Code) (context : ContextId) (calls : Nat) :
    ∀ (invocation : Invocation) (frame : Frame) (machine : Machine),
      Nests calls frame (run code context calls invocation frame machine) := by
  induction calls with
  | zero => exact fun _ _ _ => trivial
  | succ calls ih =>
      intro invocation frame machine
      let activation : Activation :=
        ⟨code, context, invocation.function.program, run code context calls⟩
      -- A frame with a call is gone on with as it is; any other is replaced by a fresh one.
      have stepped : ∀ (call : Call) (begun : Frame), begun.state.calls = 1 →
          begun.nesting ≤ max frame.nesting (calls + 1) →
          Nests (calls + 1) frame (steps activation invocation call begun machine) := by
        intro call begun held lower
        have here : Nests (calls + 1) begun (steps activation invocation call begun machine) :=
          steps_nests ih invocation call held machine
        generalize steps activation invocation call begun machine = ended at here ⊢
        obtain ⟨progress, after⟩ := ended
        cases progress with
        | done | failed => trivial
        | suspended left =>
            exact Nat.le_trans here (Nat.max_le.mpr ⟨lower, Nat.le_max_right ..⟩)
      have here : Nests (calls + 1) frame
          (steps activation invocation (entered invocation frame).1 (entered invocation frame).2
            machine) := by
        unfold entered Frame.call?
        cases held : frame.state with
        | call call =>
            exact stepped call frame (by rw [held]; rfl) (Nat.le_max_left ..)
        | fresh | block | wait | eval =>
            refine stepped _ _ rfl (Nat.le_trans ?_ (Nat.le_max_right ..))
            exact Nat.le_add_left ..
      rw [run]
      dsimp only
      generalize steps _ _ _ _ _ = ended at here ⊢
      obtain ⟨progress, after⟩ := ended
      cases progress with
      | done | failed => trivial
      | suspended left => exact here

end Invocation

end ScriptEngine
