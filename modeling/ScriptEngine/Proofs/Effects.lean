import ScriptEngine.Invocation
import Mathlib.Logic.Relation
/-! What running code can do to the world. However a call is driven, and however far it gets, its
world is reached by the atomic effects listed here; what all of them preserve, every run preserves.
-/

namespace ScriptEngine

open Relation

inductive Effect (code : Code) (context : ContextId) : World → World → Prop
  | stored (world : World) (handle : Handle) (object : Object) (name : String) (field : Variable)
      (value stored : Value) : world.heap.get? handle = some object →
      object.field? name = some field → value.convert? field.type = some stored →
      Effect code context world { world with
        heap := world.heap.update handle fun object =>
          object.updateField name fun field => field.set stored }
  | allocated (world : World) (className : String) (fields : Variables) :
      code.classes.members? className = some fields →
      Effect code context world { world with
        heap := (world.heap.allocate ⟨className, fields⟩).2 }
  | bound (world : World) (program : ProgramId) (handle : Handle) :
      world.instance? program = none → Effect code context world (world.withInstance program handle)
  | kept (world : World) (site : SiteId) (id : FunctionId) :
      Effect code context world (world.keepCallee site (some id))
  | locked (world : World) (className : String) :
      Effect code context world { world with
        guards := (world.guards.tryLock className context).2 }
  | unlocked (world : World) (className : String) :
      Effect code context world { world with
        guards := (world.guards.unlock className context).2 }

abbrev Effects (code : Code) (context : ContextId) : World → World → Prop :=
  ReflTransGen (Effect code context)

inductive Move (code : Code) (context : ContextId) : Machine → Machine → Prop
  | effect (machine : Machine) (world : World) : Effect code context machine.world world →
      Move code context machine { machine with world }
  | asked (machine : Machine) :
      Move code context machine { machine with gate := machine.gate.ask.2 }

abbrev Moves (code : Code) (context : ContextId) : Machine → Machine → Prop :=
  ReflTransGen (Move code context)

section

variable {code : Code} {context : ContextId}

theorem Effects.moves {world changed : World} (effects : Effects code context world changed)
    (gate : Gate) : Moves code context ⟨world, gate⟩ ⟨changed, gate⟩ := by
  induction effects with
  | refl => exact .refl
  | tail _ effect ih => exact ih.tail (.effect ⟨_, gate⟩ _ effect)

theorem Moves.effects {machine after : Machine} (moves : Moves code context machine after) :
    Effects code context machine.world after.world := by
  induction moves with
  | refl => exact .refl
  | tail _ move ih =>
      cases move with
      | effect world effect => exact ih.tail effect
      | asked => exact ih

theorem Effects.live {world changed : World} (effects : Effects code context world changed)
    {handle : Handle} {object : Object} (live : world.heap.get? handle = some object) :
    ∃ after, changed.heap.get? handle = some after := by
  induction effects with
  | refl => exact ⟨object, live⟩
  | tail _ effect ih =>
      obtain ⟨between, live⟩ := ih
      cases effect with
      | stored => exact Heap.get?_update_of_live live
      | allocated => exact Heap.get?_allocate_of_live live
      | bound | kept | locked | unlocked => exact ⟨between, live⟩

theorem Moves.unlimited {machine after : Machine} (moves : Moves code context machine after)
    (free : machine.gate = .unlimited) : after.gate = .unlimited := by
  induction moves with
  | refl => exact free
  | tail _ move ih =>
      cases move with
      | effect => exact ih
      | asked => simp only [ih, Gate.ask]

theorem writeVariable_cases {heap changed : Heap} {vars written : Variables} {target : Target}
    {value : Value} {span : Span}
    (wrote : Evaluation.writeVariable heap vars target value span = .ok (changed, written)) :
    (∃ id var stored, vars.find? (.var id) = some var ∧ value.convert? var.type = some stored ∧
      changed = heap ∧ written = vars.update (.var id) fun var => var.set stored) ∨
    (∃ handle object name field stored, heap.get? handle = some object ∧
      object.field? name = some field ∧ value.convert? field.type = some stored ∧
      changed = (heap.update handle fun object =>
        object.updateField name fun field => field.set stored) ∧ written = vars) := by
  cases target with
  | reserved name => simp [Evaluation.writeVariable] at wrote
  | «local» id =>
      simp only [Evaluation.writeVariable] at wrote
      cases found : vars.find? (.var id) with
      | none => simp [found] at wrote
      | some var =>
          simp only [found, Evaluation.convert] at wrote
          cases converted : value.convert? var.type with
          | none => simp [converted, bind, Except.bind] at wrote
          | some stored =>
              simp only [converted, bind, Except.bind, pure, Except.pure, Except.ok.injEq,
                Prod.mk.injEq] at wrote
              exact Or.inl ⟨id, var, stored, found, converted, wrote.1.symm, wrote.2.symm⟩
  | member name =>
      simp only [Evaluation.writeVariable] at wrote
      cases bound : vars.this? with
      | none => simp [bound] at wrote
      | some handle =>
          cases live : heap.get? handle with
          | none => simp [bound, live] at wrote
          | some object =>
              cases found : object.field? name with
              | none => simp [bound, live, found] at wrote
              | some field =>
                  simp only [bound, live, found, Evaluation.convert] at wrote
                  cases converted : value.convert? field.type with
                  | none => simp [converted, bind, Except.bind] at wrote
                  | some stored =>
                      simp only [converted, bind, Except.bind, pure, Except.pure, Except.ok.injEq,
                        Prod.mk.injEq] at wrote
                      exact Or.inr ⟨handle, object, name, field, stored, live, found, converted,
                        wrote.1.symm, wrote.2.symm⟩

theorem writeVariable_effects {world : World} {vars : Variables} {target : Target} {value : Value}
    {span : Span} {heap : Heap} {written : Variables}
    (wrote : Evaluation.writeVariable world.heap vars target value span = .ok (heap, written)) :
    Effects code context world { world with heap } := by
  rcases writeVariable_cases wrote with ⟨_, _, _, _, _, rfl, _⟩ |
    ⟨handle, object, name, field, stored, live, found, converted, rfl, _⟩
  · exact .refl
  · exact .single (.stored world handle object name field value stored live found converted)

theorem keepCallee_effects (world : World) (site : SiteId) (id? : Option FunctionId) :
    Effects code context world (world.keepCallee site id?) := by
  cases id? with
  | none => exact .refl
  | some id => exact .single (.kept world site id)

theorem programInstance_effects {program : ProgramId} {className : String} {world changed : World}
    {handle : Handle}
    (done : Invocation.programInstance code program className world = .ok (handle, changed)) :
    Effects code context world changed := by
  simp only [Invocation.programInstance] at done
  cases known : code.classes.members? className with
  | none =>
      simp only [known] at done
      split at done
      · cases done
        exact .refl
      · cases done
  | some fields =>
      simp only [known] at done
      split at done
      · cases done
        exact .refl
      · have allocated : Effect code context world _ := .allocated world className fields known
        cases done
        split
        · rename_i unbound
          refine .tail (.single allocated) (.bound _ _ _ ?_)
          simpa [World.instance?] using unbound
        · exact .single allocated

theorem bindInstance_cases {invocation : Invocation} {vars bound : Variables}
    {world changed : World}
    (done : Invocation.bindInstance code invocation vars world = .ok (bound, changed)) :
    (invocation.function.owner = none ∧ bound = vars ∧ changed = world) ∨
    ∃ owner handle, invocation.function.owner = some owner ∧
      bound = vars ++ Invocation.reservedVariables code owner handle ∧
      (changed = world ∨ Invocation.programInstance code invocation.function.program owner world =
        .ok (handle, changed)) := by
  unfold Invocation.bindInstance at done
  cases owned : invocation.function.owner with
  | none =>
      simp only [owned, Except.ok.injEq, Prod.mk.injEq] at done
      exact Or.inl ⟨rfl, done.1.symm, done.2.symm⟩
  | some owner =>
      cases given : invocation.receiver with
      | some handle =>
          simp only [owned, given, bind, Except.bind, pure, Except.pure, Except.ok.injEq,
            Prod.mk.injEq] at done
          exact Or.inr ⟨owner, handle, rfl, done.1.symm, Or.inl done.2.symm⟩
      | none =>
          simp only [owned, given, bind, Except.bind] at done
          cases chosen : Invocation.programInstance code invocation.function.program owner world with
          | error error => simp [chosen] at done
          | ok found =>
              simp only [chosen, pure, Except.pure, Except.ok.injEq, Prod.mk.injEq] at done
              exact Or.inr ⟨owner, found.1, rfl, done.1.symm, Or.inr (done.2 ▸ chosen)⟩

theorem bindInstance_effects {invocation : Invocation} {vars bound : Variables}
    {world changed : World}
    (done : Invocation.bindInstance code invocation vars world = .ok (bound, changed)) :
    Effects code context world changed := by
  rcases bindInstance_cases done with ⟨_, _, rfl⟩ | ⟨owner, handle, _, _, rfl | chosen⟩
  · exact .refl
  · exact .refl
  · exact programInstance_effects chosen

theorem releaseGuard_moves (call : Call) (machine : Machine) :
    Moves code context machine (Invocation.releaseGuard context call machine) := by
  unfold Invocation.releaseGuard
  split
  · exact .refl
  · rename_i owner _
    exact .single (.effect machine _ (.unlocked machine.world owner))

theorem operand_moves (slot : Nat) {evaluate : Frame → Machine → Progress Value × Machine}
    (evaluated : ∀ frame machine,
      Moves code context machine (evaluate frame machine).2)
    (frame : Frame) (machine : Machine) :
    Moves code context machine (Evaluation.operand slot evaluate frame machine).2 := by
  unfold Evaluation.operand
  split
  · exact .refl
  · have reached := evaluated (frame.child slot) machine
    generalize evaluate (frame.child slot) machine = ended at reached ⊢
    obtain ⟨progress, after⟩ := ended
    cases progress <;> exact reached

end

section

variable {activation : Activation}

def Activation.Moves (activation : Activation) : Prop :=
  ∀ invocation frame machine, ScriptEngine.Moves activation.code activation.context machine
    (activation.call invocation frame machine).2

theorem enterSite_moves (nested : activation.Moves) (site : CallSite) (slot : Nat)
    (callee : Evaluation.Callee) (receiver : Option Handle) (args : Variables) (frame : Frame)
    (machine : Machine) :
    Moves activation.code activation.context machine
      (Evaluation.enterSite activation site slot callee receiver args frame machine).2 := by
  cases callee with
  | gone => exact .refl
  | notFound cause => exact .refl
  | found function kept =>
      simp only [Evaluation.enterSite]
      have remembered : Moves activation.code activation.context machine _ :=
        (keepCallee_effects machine.world ⟨activation.program, site.offset⟩ kept).moves machine.gate
      refine remembered.trans ?_
      have reached := nested
        ⟨function, receiver, args, some site.span, activation.program⟩ (frame.child slot)
        { machine with world := machine.world.keepCallee ⟨activation.program, site.offset⟩ kept }
      generalize activation.call _ _ _ = ended at reached ⊢
      obtain ⟨progress, after⟩ := ended
      cases progress <;> exact reached

theorem callSite_moves (nested : activation.Moves) (site : CallSite) (types : List DataType)
    (frame : Frame) (machine : Machine) :
    Moves activation.code activation.context machine
      (Evaluation.callSite activation site types frame machine).2 := by
  unfold Evaluation.callSite
  dsimp only
  split
  · split
    · exact .refl
    · exact enterSite_moves nested ..
  · exact enterSite_moves nested ..

mutual

theorem evalExpr_moves (nested : activation.Moves) (vars : Variables) :
    ∀ (expr : Expr) (frame : Frame) (machine : Machine),
      Moves activation.code activation.context machine
        (Evaluation.evalExpr activation vars expr frame machine).2
  | .literal .., _, _ => by
      rw [Evaluation.evalExpr]
  | .var .., _, _ => by
      rw [Evaluation.evalExpr]
  | .negate type span inner, frame, machine => by
      rw [Evaluation.evalExpr]
      have reached := operand_moves 0 (evalExpr_moves nested vars inner)
        frame.startEval machine
      generalize Evaluation.operand _ _ _ _ = ended at reached ⊢
      obtain ⟨progress, after⟩ := ended
      cases progress <;> exact reached
  | .binary type span operator left right, frame, machine => by
      rw [Evaluation.evalExpr]
      have first := operand_moves 0 (evalExpr_moves nested vars left)
        frame.startEval machine
      generalize Evaluation.operand 0 _ _ _ = ended at first ⊢
      obtain ⟨progress, after⟩ := ended
      cases progress with
      | suspended frame => exact first
      | failed error => exact first
      | done frame =>
          have second := operand_moves 1 (evalExpr_moves nested vars right)
            frame after
          dsimp only
          generalize Evaluation.operand 1 _ _ _ = ended at second ⊢
          obtain ⟨progress, behind⟩ := ended
          cases progress <;> exact first.trans second
  | .call type span site operands, frame, machine => by
      rw [Evaluation.evalExpr]
      have reached := evalOperands_moves nested vars 0 operands frame.startEval machine
      generalize Evaluation.evalOperands _ _ _ _ _ _ = ended at reached ⊢
      obtain ⟨progress, after⟩ := ended
      cases progress with
      | suspended frame => exact reached
      | failed error => exact reached
      | done frame => exact reached.trans (callSite_moves nested ..)

theorem evalOperands_moves (nested : activation.Moves) (vars : Variables) (slot : Nat) :
    ∀ (operands : List Expr) (frame : Frame) (machine : Machine),
      Moves activation.code activation.context machine
        (Evaluation.evalOperands activation vars slot operands frame machine).2
  | [], _, _ => by
      rw [Evaluation.evalOperands]
  | first :: rest, frame, machine => by
      rw [Evaluation.evalOperands]
      have reached := operand_moves slot (evalExpr_moves nested vars first) frame machine
      generalize Evaluation.operand _ _ _ _ = ended at reached ⊢
      obtain ⟨progress, after⟩ := ended
      cases progress with
      | suspended frame => exact reached
      | failed error => exact reached
      | done frame => exact reached.trans (evalOperands_moves nested vars (slot + 1) rest ..)

end

theorem evalThen_moves (nested : activation.Moves) (expr : Expr) (frame : Frame)
    (state : RunState) {continueWith : Value → RunState → Progress Completion × RunState}
    (continued : ∀ value state, Moves activation.code activation.context state.machine
      (continueWith value state).2.machine) :
    Moves activation.code activation.context state.machine
      (Evaluation.evalThen activation expr frame state continueWith).2.machine := by
  unfold Evaluation.evalThen
  have reached := evalExpr_moves nested state.vars expr frame state.machine
  generalize Evaluation.evalExpr _ _ _ _ _ = ended at reached ⊢
  obtain ⟨progress, after⟩ := ended
  cases progress with
  | suspended frame => exact reached
  | failed error => exact reached
  | done value => exact reached.trans (continued value { state with machine := after })

theorem waitStep_moves (frame : Frame) (state : RunState) (remaining : Nat) :
    Moves code context state.machine (Evaluation.waitStep frame state remaining).2.machine := by
  cases remaining <;> exact .refl

theorem assign_moves (target : Target) (span : Span) (value : Value) (state : RunState) :
    Moves code context state.machine (Evaluation.assign target span value state).2.machine := by
  unfold Evaluation.assign
  split
  · rename_i wrote
    exact (writeVariable_effects wrote).moves state.machine.gate
  · exact .refl

mutual

theorem execStmt_moves (nested : activation.Moves) :
    ∀ (stmt : Stmt) (frame : Frame) (state : RunState),
      Moves activation.code activation.context state.machine
        (Evaluation.execStmt activation stmt frame state).2.machine
  | .block _ stmts, frame, state => by
      rw [Evaluation.execStmt]
      exact execStmts_moves nested 0 stmts _ state
  | .return _ none, _, _ => by
      rw [Evaluation.execStmt]
  | .return _ (some expr), frame, state => by
      rw [Evaluation.execStmt]
      exact evalThen_moves nested expr frame state fun _ _ => .refl
  | .wait _ count, frame, state => by
      rw [Evaluation.execStmt]
      split
      · exact waitStep_moves ..
      · exact evalThen_moves nested count frame state fun _ _ => waitStep_moves ..
  | .declare _ _ _ _ none, _, _ => by
      rw [Evaluation.execStmt]
      exact .refl
  | .declare span id name type (some expr), frame, state => by
      rw [Evaluation.execStmt]
      refine evalThen_moves nested expr frame state fun value state => ?_
      split <;> exact .refl
  | .assign span target expr, frame, state => by
      rw [Evaluation.execStmt]
      exact evalThen_moves nested expr frame state fun _ _ => assign_moves ..
  | .expr expr, frame, state => by
      rw [Evaluation.execStmt]
      exact evalThen_moves nested expr frame state fun _ _ => .refl

theorem execStmts_moves (nested : activation.Moves) (place : Nat) :
    ∀ (stmts : List Stmt) (frame : Frame) (state : RunState),
      Moves activation.code activation.context state.machine
        (Evaluation.execStmts activation place stmts frame state).2.machine
  | [], _, _ => by
      rw [Evaluation.execStmts]
  | first :: rest, frame, state => by
      rw [Evaluation.execStmts]
      split
      · exact execStmts_moves nested (place + 1) rest frame state
      · have reached := execStmt_moves nested first (frame.child place) state
        generalize Evaluation.execStmt _ _ _ _ = ended at reached ⊢
        obtain ⟨progress, after⟩ := ended
        cases progress with
        | suspended child => exact reached
        | failed error => exact reached
        | done completion =>
            cases completion with
            | next => exact reached.trans (execStmts_moves nested (place + 1) rest ..)
            | «return» value => exact reached

end

section

variable (invocation : Invocation) (call : Call) (vars : Variables) (frame : Frame)
  (machine : Machine)

theorem bodyStep_moves (nested : activation.Moves) :
    Moves activation.code activation.context machine
      (Invocation.bodyStep activation invocation call vars frame machine).2 := by
  have question : Move activation.code activation.context machine _ := .asked machine
  unfold Invocation.bodyStep
  generalize machine.gate.ask = answer at question ⊢
  obtain ⟨allowed, gate⟩ := answer
  cases allowed with
  | false => exact .single question
  | true =>
      have reached := execStmts_moves nested 0 invocation.function.body.stmts
        { Frame.child { frame with state := .call call, vars } 0 with
          state := .block (Frame.child { frame with state := .call call, vars } 0).nextStatement }
        ⟨vars, { machine with gate }⟩
      simp only [Bool.not_true, Bool.false_eq_true, if_false, Evaluation.execBlock]
      generalize Evaluation.execStmts _ _ _ _ _ = ended at reached ⊢
      obtain ⟨progress, after⟩ := ended
      cases progress with
      | suspended child => exact reached.head question
      | failed error => exact (reached.head question).trans (releaseGuard_moves ..)
      | done completion => exact (reached.head question).trans (releaseGuard_moves ..)

theorem guardStep_moves (nested : activation.Moves) :
    Moves activation.code activation.context machine
      (Invocation.guardStep activation invocation call vars frame machine).2 := by
  unfold Invocation.guardStep
  have locked : Move activation.code activation.context machine _ :=
    .effect machine _ (.locked machine.world (invocation.function.owner.getD ""))
  dsimp only
  split
  · refine .trans (.single locked) ?_
    exact bodyStep_moves invocation call.advance vars frame
      { machine with world := { machine.world with guards := _ } } nested
  · exact .single locked

theorem instanceStep_moves (nested : activation.Moves) :
    Moves activation.code activation.context machine
      (Invocation.instanceStep activation invocation call vars frame machine).2 := by
  unfold Invocation.instanceStep
  split
  · exact .refl
  · rename_i bound world done
    have changed : Moves activation.code activation.context machine { machine with world } :=
      (bindInstance_effects done).moves machine.gate
    dsimp only
    split
    · exact changed.trans (guardStep_moves invocation _ _ frame { machine with world } nested)
    · exact changed.trans (bodyStep_moves invocation _ _ frame { machine with world } nested)

theorem paramsStep_moves (nested : activation.Moves) :
    Moves activation.code activation.context machine
      (Invocation.paramsStep activation invocation call vars frame machine).2 := by
  unfold Invocation.paramsStep
  split
  · exact .refl
  · dsimp only
    split
    · exact instanceStep_moves invocation _ _ frame machine nested
    · exact bodyStep_moves invocation _ _ frame machine nested

theorem steps_moves (nested : activation.Moves) :
    Moves activation.code activation.context machine
      (Invocation.steps activation invocation call frame machine).2 := by
  unfold Invocation.steps
  cases call.step with
  | bindParams => exact paramsStep_moves invocation call _ frame machine nested
  | bindInstance => exact instanceStep_moves invocation call _ frame machine nested
  | acquireGuard => exact guardStep_moves invocation call _ frame machine nested
  | runBody => exact bodyStep_moves invocation call _ frame machine nested

end

end

/-- Whatever a call of a context does, ended or not, it does to the world by effects. -/
theorem run_moves (code : Code) (context : ContextId) (depth : Nat) (invocation : Invocation)
    (frame : Frame) (machine : Machine) :
    Moves code context machine (Invocation.run code context depth invocation frame machine).2 := by
  induction depth generalizing invocation frame machine with
  | zero => exact .refl
  | succ depth ih =>
      unfold Invocation.run
      generalize Invocation.entered invocation frame = entered
      obtain ⟨call, frame⟩ := entered
      let activation : Activation :=
        ⟨code, context, invocation.function.program, Invocation.run code context depth⟩
      have reached := @steps_moves activation invocation call frame machine ih
      dsimp only
      generalize Invocation.steps _ _ _ _ _ = ended at reached ⊢
      obtain ⟨progress, after⟩ := ended
      cases progress <;> exact reached

end ScriptEngine
