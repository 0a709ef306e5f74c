import ScriptEngine.Proofs.Attachments
import ScriptEngine.Proofs.UniqueSignatures
import ScriptEngine.Proofs.Unloading
/-! What is seen of free-form methods while code runs. Whatever is evaluated, the world changes along
what is seen, and the methods that it is suspended in were held before or have started on the way. -/

namespace ScriptEngine

variable {code : Code} {held : List Attachment}

def Progress.Traces {α : Type} (held : List Attachment) (seen : List Sighting) (holds : α → Prop) :
    Progress α → Prop
  | .done value => holds value
  | .suspended frame => frame.Traces held seen
  | .failed _ => True

structure Attends {α : Type} (code : Code) (held : List Attachment) (holds : α → Prop)
    (world : World) (seen : List Sighting) (progress : Progress α) (after : World) : Prop where
  attaches : Attaches code held world seen after
  traces : progress.Traces held seen holds

abbrev AttendsTo {α : Type} (code : Code) (held : List Attachment) (world : World)
    (seen : List Sighting) (progress : Progress α) (after : World) : Prop :=
  Attends code held (fun _ : α => True) world seen progress after

namespace Attends

variable {α β : Type} {holds : α → Prop} {other : β → Prop} {world middle after : World}
  {seen more : List Sighting} {progress : Progress α} {frame : Frame}

theorem done {value : α} (attaches : Attaches code held world seen after) (kept : holds value) :
    Attends code held holds world seen (.done value) after := ⟨attaches, kept⟩

theorem failed {error : RuntimeError} (attaches : Attaches code held world seen after) :
    Attends code held holds world seen (.failed error) after := ⟨attaches, True.intro⟩

theorem ofExcept (attaches : Attaches code held world seen after)
    (result : Except RuntimeError α) :
    AttendsTo code held world seen (.ofExcept result) after := by
  cases result with
  | ok value => exact done attaches True.intro
  | error error => exact failed attaches

theorem yields (attends : Attends code held holds world seen (.suspended frame) after) :
    Attends code held other world seen (.suspended frame) after :=
  ⟨attends.attaches, attends.traces⟩

theorem append (first : Attaches code held world seen middle)
    (second : Attends code held holds middle more progress after) :
    Attends code held holds world (seen ++ more) progress after where
  attaches := first.trans second.attaches
  traces := by
    cases progress with
    | done value => exact second.traces
    | suspended frame => exact second.traces.mono (List.subset_append_right ..)
    | failed error => exact True.intro

theorem nothing (attends : Attends code held holds world seen progress after) :
    Attends code held holds world (seen ++ []) progress after := by
  rw [List.append_nil]
  exact attends

theorem head (retains : world.Retains middle)
    (attends : Attends code held holds middle seen progress after) :
    Attends code held holds world seen progress after :=
  ⟨attends.attaches.head retains, attends.traces⟩

theorem within (attends : Attends code held holds world seen (.suspended frame) after)
    {outer : Frame} (carries : outer.Carries held) (slot : Nat) :
    Attends code held other world seen (.suspended (outer.withChild slot frame)) after :=
  ⟨attends.attaches, carries.traces.withChild slot attends.traces⟩

end Attends

section

variable {activation : Activation} {frame : Frame}

theorem operand_attends (slot : Nat) {evaluate : Frame → Machine → Progress Value × Machine}
    {notes : Frame → Machine → List Sighting}
    (evaluated : ∀ (frame : Frame) (machine : Machine), frame.Carries held →
      AttendsTo code held machine.world (notes frame machine) (evaluate frame machine).1
        (evaluate frame machine).2.world)
    (carries : frame.Carries held) (machine : Machine) :
    Attends code held (Frame.Carries held) machine.world
      (Evaluation.operandNotes slot notes frame machine)
      (Evaluation.operand slot evaluate frame machine).1
      (Evaluation.operand slot evaluate frame machine).2.world := by
  unfold Evaluation.operand Evaluation.operandNotes
  split
  · exact .done (.refl _) carries
  · have reached := evaluated (frame.child slot) machine (carries.child slot)
    generalize evaluate (frame.child slot) machine = ended at reached ⊢
    obtain ⟨progress, after⟩ := ended
    cases progress with
    | done value => exact .done reached.attaches (carries.withoutChild slot _)
    | suspended child => exact reached.within carries slot
    | failed error => exact .failed reached.attaches

structure Code.Addresses (code : Code) : Prop where
  consistent : code.Consistent
  /-- Methods that are declared in the block of a class are not public. -/
  free : ∀ function ∈ code.publicFunctions, function.signature.classBlock = none

theorem Code.Addresses.resolveCall (addresses : code.Addresses) {program : ProgramId}
    {kept found? : Option FunctionId} {name : String} {args : List DataType} {function : Function}
    (found : code.resolveCall program kept name args = (.ok function, found?)) :
    function.signature.classBlock = none := by
  unfold Code.resolveCall at found
  rcases List.mem_append.mp (Overload.resolve_mem found) with own | «public»
  · split at own
    · exact Option.isNone_iff_eq_none.mp (List.mem_filter.mp own).2
    · cases own
  · exact addresses.free function «public»

structure Attending (activation : Activation)
    (nested : Invocation → Frame → Machine → List Sighting) (held : List Attachment) : Prop where
  addresses : activation.code.Addresses
  nested : ∀ (invocation : Invocation) (frame : Frame) (machine : Machine),
    activation.code.Owns invocation.function → invocation.Addressed frame → frame.Carries held →
      AttendsTo activation.code held machine.world (nested invocation frame machine)
        (activation.call invocation frame machine).1
        (activation.call invocation frame machine).2.world

theorem callee_addressed {child : Frame} {invocation : Invocation}
    {kept found? : Option FunctionId}
    {resolved : Except CompileCause Function × Option FunctionId}
    (means : ∀ function id?, resolved = (.ok function, id?) →
      (invocation.receiver = none ↔ function.signature.classBlock = none))
    (found : Evaluation.callee code child kept resolved = .found invocation.function found?) :
    invocation.Addressed child := by
  intro fresh
  rcases Evaluation.callee_chosen found with ⟨call, same, _⟩ | ⟨_, same⟩
  · rw [fresh] at same
    cases same
  · exact means _ _ same

theorem choose_addressed (addresses : activation.code.Addresses) {site : CallSite}
    {types : List DataType} {machine : Machine} {function : Function}
    {kept : Option FunctionId} {receiver : Option Handle} {args : Variables}
    (chosen : Evaluation.choose activation site types frame machine =
      .ok (.found function kept, receiver, args)) :
    Invocation.Addressed ⟨function, receiver, args, some site.span, activation.program⟩
      (frame.child types.length) := by
  unfold Evaluation.choose at chosen
  dsimp only at chosen
  split at chosen
  · split at chosen
    · cases chosen
    · obtain ⟨found, given⟩ := Prod.mk.inj (Except.ok.inj chosen)
      obtain ⟨rfl, rfl⟩ := Prod.mk.inj given
      refine callee_addressed (fun _ _ resolved => ?_) found
      have enclosed := Code.classBlock_of_resolveMethod resolved
      exact iff_of_false (Option.some_ne_none _) (Option.isSome_iff_ne_none.mp enclosed)
  · obtain ⟨found, given⟩ := Prod.mk.inj (Except.ok.inj chosen)
    obtain ⟨rfl, rfl⟩ := Prod.mk.inj given
    exact callee_addressed
      (fun _ _ resolved => ⟨fun _ => addresses.resolveCall resolved, fun _ => rfl⟩) found

end

section

variable {activation : Activation} {function : Function}
  {nested : Invocation → Frame → Machine → List Sighting}

theorem callSite_attends (attending : Attending activation nested held) (site : CallSite)
    (types : List DataType) {frame : Frame} (carries : frame.Carries held) (machine : Machine) :
    AttendsTo activation.code held machine.world
      (Evaluation.siteNotes activation nested site types frame machine)
      (Evaluation.callSite activation site types frame machine).1
      (Evaluation.callSite activation site types frame machine).2.world := by
  rw [Evaluation.callSite_eq]
  unfold Evaluation.siteNotes
  cases chosen : Evaluation.choose activation site types frame machine with
  | error error => exact .failed (.refl _)
  | ok choice =>
      obtain ⟨callee, receiver, args⟩ := choice
      cases callee with
      | gone | notFound => exact .failed (.refl _)
      | found function kept =>
          have owns := Evaluation.choose_owns attending.addresses.consistent chosen
          have addressed := choose_addressed attending.addresses chosen
          simp only [Evaluation.enterSite]
          generalize remembered : machine.world.keepCallee ⟨activation.program, site.offset⟩ kept =
            world
          have kept : machine.world.Retains world := remembered ▸ keepCallee_retains ..
          have reached := (attending.nested _ (frame.child types.length) { machine with world } owns
            addressed (carries.child _)).head kept
          generalize activation.call _ _ _ = ended at reached ⊢
          obtain ⟨progress, after⟩ := ended
          cases progress with
          | done value => exact reached
          | suspended child => exact reached.within carries types.length
          | failed error => exact reached

mutual

theorem evalExpr_attends (attending : Attending activation nested held) (vars : Variables) :
    ∀ (expr : Expr) (frame : Frame) (machine : Machine), frame.Carries held →
      AttendsTo activation.code held machine.world
        (Evaluation.exprNotes (.silent Sighting) activation function nested vars expr frame machine)
        (Evaluation.evalExpr activation vars expr frame machine).1
        (Evaluation.evalExpr activation vars expr frame machine).2.world
  | .literal .., _, _, _ => by
      rw [Evaluation.evalExpr, Evaluation.exprNotes]
      exact .done (.refl _) True.intro
  | .var .., _, _, _ => by
      rw [Evaluation.evalExpr, Evaluation.exprNotes]
      exact .ofExcept (.refl _) _
  | .negate type span inner, frame, machine, carries => by
      rw [Evaluation.evalExpr, Evaluation.exprNotes]
      have reached := operand_attends 0 (evalExpr_attends attending vars inner) carries.startEval
        machine
      generalize Evaluation.operand _ _ _ _ = ended at reached ⊢
      obtain ⟨progress, after⟩ := ended
      cases progress with
      | done frame => exact .nothing (.ofExcept reached.attaches _)
      | suspended frame => exact reached.yields.nothing
      | failed error => exact .nothing (.failed reached.attaches)
  | .binary type span operator left right, frame, machine, carries => by
      rw [Evaluation.evalExpr, Evaluation.exprNotes]
      have first := operand_attends 0 (evalExpr_attends attending vars left) carries.startEval
        machine
      generalize Evaluation.operand 0 _ _ _ = ended at first ⊢
      obtain ⟨progress, after⟩ := ended
      cases progress with
      | suspended frame => exact first.yields.nothing.nothing
      | failed error => exact .nothing (.nothing (.failed first.attaches))
      | done frame =>
          have second := operand_attends 1 (evalExpr_attends attending vars right) first.traces after
          dsimp only
          generalize Evaluation.operand 1 _ _ _ = ended at second ⊢
          obtain ⟨progress, behind⟩ := ended
          have both := first.attaches.trans second.attaches
          cases progress with
          | done frame => exact .nothing (.ofExcept both _)
          | suspended frame => exact (Attends.append first.attaches second.yields).nothing
          | failed error => exact .nothing (.failed both)
  | .call type span site operands, frame, machine, carries => by
      rw [Evaluation.evalExpr, Evaluation.exprNotes]
      have reached := evalOperands_attends attending vars 0 operands frame.startEval machine
        carries.startEval
      generalize Evaluation.evalOperands _ _ _ _ _ _ = ended at reached ⊢
      obtain ⟨progress, after⟩ := ended
      cases progress with
      | suspended frame => exact reached.yields.nothing.nothing
      | failed error => exact .nothing (.nothing (.failed reached.attaches))
      | done frame =>
          exact (Attends.append reached.attaches
            (callSite_attends attending site _ reached.traces after)).nothing

theorem evalOperands_attends (attending : Attending activation nested held) (vars : Variables)
    (slot : Nat) : ∀ (operands : List Expr) (frame : Frame) (machine : Machine),
      frame.Carries held →
      Attends activation.code held (Frame.Carries held) machine.world
        (Evaluation.operandsNotes (.silent Sighting) activation function nested vars slot operands
          frame machine)
        (Evaluation.evalOperands activation vars slot operands frame machine).1
        (Evaluation.evalOperands activation vars slot operands frame machine).2.world
  | [], _, _, carries => by
      rw [Evaluation.evalOperands, Evaluation.operandsNotes]
      exact .done (.refl _) carries
  | first :: rest, frame, machine, carries => by
      rw [Evaluation.evalOperands, Evaluation.operandsNotes]
      have reached := operand_attends slot (evalExpr_attends attending vars first) carries machine
      generalize Evaluation.operand _ _ _ _ = ended at reached ⊢
      obtain ⟨progress, after⟩ := ended
      cases progress with
      | suspended frame => exact reached.nothing
      | failed error => exact reached.nothing
      | done frame =>
          exact .append reached.attaches
            (evalOperands_attends attending vars (slot + 1) rest frame after reached.traces)

end

theorem evalThen_attends (attending : Attending activation nested held) (expr : Expr)
    {frame : Frame} (carries : frame.Carries held) (state : RunState)
    {continueWith : Value → RunState → Progress Completion × RunState}
    (continued : ∀ (value : Value) (state : RunState),
      AttendsTo activation.code held state.machine.world [] (continueWith value state).1
        (continueWith value state).2.machine.world) :
    AttendsTo activation.code held state.machine.world
      (Evaluation.valueNotes (.silent Sighting) activation function nested expr frame state)
      (Evaluation.evalThen activation expr frame state continueWith).1
      (Evaluation.evalThen activation expr frame state continueWith).2.machine.world := by
  unfold Evaluation.evalThen Evaluation.valueNotes
  have reached := @evalExpr_attends held activation function nested attending state.vars expr frame
    state.machine carries
  generalize Evaluation.evalExpr _ _ _ _ _ = ended at reached ⊢
  obtain ⟨progress, after⟩ := ended
  cases progress with
  | suspended frame => exact reached.yields
  | failed error => exact .failed reached.attaches
  | done value =>
      have behind := Attends.append reached.attaches
        (continued value { state with machine := after })
      rw [List.append_nil] at behind
      exact behind

theorem waitStep_attends {frame : Frame} (carries : frame.Carries held) (state : RunState)
    (remaining : Nat) : AttendsTo code held state.machine.world []
      (Evaluation.waitStep frame state remaining).1
      (Evaluation.waitStep frame state remaining).2.machine.world := by
  cases remaining with
  | zero => exact .done (.refl _) True.intro
  | succ remaining => exact ⟨.refl _, (carries.waiting remaining).traces⟩

theorem assign_attends (target : Target) (span : Span) (value : Value) (state : RunState) :
    AttendsTo code held state.machine.world [] (Evaluation.assign target span value state).1
      (Evaluation.assign target span value state).2.machine.world := by
  unfold Evaluation.assign
  split
  · rename_i wrote
    exact .done (.kept (writeVariable_retains wrote)) True.intro
  · exact .failed (.refl _)

mutual

theorem execStmt_attends (attending : Attending activation nested held) :
    ∀ (stmt : Stmt) (frame : Frame) (state : RunState), frame.Carries held →
      AttendsTo activation.code held state.machine.world
        (Evaluation.stmtNotes (.silent Sighting) activation function nested stmt frame state)
        (Evaluation.execStmt activation stmt frame state).1
        (Evaluation.execStmt activation stmt frame state).2.machine.world
  | .block _ stmts, frame, state, carries => by
      rw [Evaluation.execStmt, Evaluation.stmtNotes]
      exact execStmts_attends attending 0 stmts _ state (carries.block _)
  | .return _ none, _, _, _ | .declare _ _ _ _ none, _, _, _ => by
      rw [Evaluation.execStmt, Evaluation.stmtNotes]
      exact .done (.refl _) True.intro
  | .return _ (some expr), frame, state, carries => by
      rw [Evaluation.execStmt, Evaluation.stmtNotes]
      exact evalThen_attends attending expr carries state fun _ _ => .done (.refl _) True.intro
  | .wait _ count, frame, state, carries => by
      rw [Evaluation.execStmt, Evaluation.stmtNotes]
      generalize frame.state = place
      cases place with
      | wait remaining => exact waitStep_attends carries state remaining
      | fresh | call | block | eval =>
          exact evalThen_attends attending count carries state fun _ state =>
            waitStep_attends carries.clearProgress state _
  | .declare span id name type (some expr), frame, state, carries => by
      rw [Evaluation.execStmt, Evaluation.stmtNotes]
      refine evalThen_attends attending expr carries state fun value state => ?_
      split
      · exact .done (.refl _) True.intro
      · exact .failed (.refl _)
  | .assign span target expr, frame, state, carries => by
      rw [Evaluation.execStmt, Evaluation.stmtNotes]
      have reached := @evalThen_attends held activation function nested attending expr frame carries
        state _ fun value state => assign_attends target span value state
      split <;> exact reached.nothing
  | .expr expr, frame, state, carries => by
      rw [Evaluation.execStmt, Evaluation.stmtNotes]
      exact evalThen_attends attending expr carries state fun _ _ => .done (.refl _) True.intro

theorem execStmts_attends (attending : Attending activation nested held) (place : Nat) :
    ∀ (stmts : List Stmt) (frame : Frame) (state : RunState), frame.Carries held →
      AttendsTo activation.code held state.machine.world
        (Evaluation.stmtsNotes (.silent Sighting) activation function nested place stmts frame
          state)
        (Evaluation.execStmts activation place stmts frame state).1
        (Evaluation.execStmts activation place stmts frame state).2.machine.world
  | [], _, _, _ => by
      rw [Evaluation.execStmts, Evaluation.stmtsNotes]
      exact .done (.refl _) True.intro
  | first :: rest, frame, state, carries => by
      rw [Evaluation.execStmts, Evaluation.stmtsNotes]
      split
      · exact execStmts_attends attending (place + 1) rest frame state carries
      · have reached := execStmt_attends attending first (frame.child place) state
          (carries.child place)
        generalize Evaluation.execStmt _ _ _ _ = ended at reached ⊢
        obtain ⟨progress, after⟩ := ended
        cases progress with
        | suspended child => exact (reached.within carries place).nothing
        | failed error => exact reached.nothing
        | done completion =>
            cases completion with
            | next =>
                exact .append reached.attaches (execStmts_attends attending (place + 1) rest _ after
                  (carries.passed place))
            | «return» value => exact reached.nothing

end

end

section

variable {activation : Activation} {nested : Invocation → Frame → Machine → List Sighting}
  {invocation : Invocation} {call : Call} {vars : Variables} {frame : Frame} {machine : Machine}
  {world : World} {seen : List Sighting}

theorem Attaches.of_sightings {code : Code} {after : World} {starts : Bool}
    (attaches : Attaches code held world (call.sightings starts vars) after) {method : Attachment}
    (attached : call.attachment? vars = some method) :
    method ∈ held ∨ .started method ∈ call.sightings starts vars := by
  cases starts with
  | true => exact Or.inr (Call.mem_sightings.mpr ⟨method, attached, rfl⟩)
  | false => exact Or.inl (attaches.held_of_continued (Call.mem_sightings.mpr ⟨method, attached, rfl⟩))

theorem bodyStep_attends (attending : Attending activation nested held)
    (attaches : Attaches activation.code held world seen machine.world)
    (own : ∀ method, call.attachment? vars = some method → method ∈ held ∨ .started method ∈ seen)
    (inside : ∀ entry ∈ frame.children, entry.2.Carries held) :
    AttendsTo activation.code held world
      (seen ++ Invocation.bodyNotes (.silent Sighting) activation invocation nested vars frame machine)
      (Invocation.bodyStep activation invocation call vars frame machine).1
      (Invocation.bodyStep activation invocation call vars frame machine).2.world := by
  unfold Invocation.bodyStep Invocation.bodyNotes
  dsimp only
  cases allowed : machine.gate.ask.1 with
  | false =>
      simp only [Bool.not_false, if_true, List.append_nil]
      exact ⟨attaches, .of_call rfl own fun entry among => (inside entry among).traces⟩
  | true =>
      let body := Frame.child { frame with state := .call call, vars } 0
      have reached := @execStmts_attends held activation invocation.function nested attending 0
        invocation.function.body.stmts { body with state := .block body.nextStatement }
        ⟨vars, { machine with gate := machine.gate.ask.2 }⟩
        ((Frame.Carries.child_of_inside inside 0).block _)
      -- The body leaves `this` alone, so what is suspended in it has the object that it came with.
      have same := @execStmts_this activation 0 invocation.function.body.stmts
        { body with state := .block body.nextStatement }
        ⟨vars, { machine with gate := machine.gate.ask.2 }⟩
      have both := Attends.append attaches reached
      simp only [Bool.not_true, Bool.false_eq_true, if_false, Evaluation.execBlock]
      generalize Evaluation.execStmts _ _ _ _ _ = ended at both same ⊢
      obtain ⟨progress, after⟩ := ended
      cases progress with
      | suspended child =>
          refine ⟨both.attaches, .of_call rfl (fun method attached => ?_) fun entry among => ?_⟩
          · rw [Call.attachment?_this same] at attached
            exact (own method attached).imp_right (List.mem_append_left _)
          · rcases Frame.mem_place among with rfl | kept
            · exact both.traces
            · exact (inside entry kept).traces
      | failed error => exact .failed (both.attaches.tail (releaseGuard_retains ..))
      | done completion => exact .ofExcept (both.attaches.tail (releaseGuard_retains ..)) _

theorem entered_approaches (carries : frame.Carries held) (addressed : invocation.Addressed frame)
    (world : World) :
    let (call, entered) := Invocation.entered invocation frame
    Approaches activation.code held world (call.step = .bindParams) call entered.vars world ∧
      (call.step = .bindParams → invocation.Starts call) ∧
        ∀ entry ∈ entered.children, entry.2.Carries held := by
  unfold Invocation.entered
  cases running : frame.call? with
  | none =>
      exact ⟨⟨rfl, rfl, .refl world⟩, fun _ => ⟨rfl, addressed running⟩, List.forall_mem_nil _⟩
  | some call =>
      have settled := (Frame.settled_iff.mp carries.settled).1
      have mine : ∀ method, call.attachment? frame.vars = some method → method ∈ held :=
        fun method attached => carries.held method
          (Frame.mem_attachments.mpr (Or.inl (by simpa [Frame.attachment?, running] using attached)))
      have same : frame.state = .call call := by
        unfold Frame.call? at running
        split at running
        · cases running
          assumption
        · cases running
      rw [same] at settled
      -- A call that yielded has bound its object: it waits for its guard, or for its body to go on.
      rcases settled with queued | runs
      · refine ⟨?_, fun binds => ?_, carries.inside⟩
        · rw [Approaches, queued]
          exact ⟨.refl world, fun method attached => ⟨rfl, mine method attached⟩⟩
        · rw [queued] at binds
          cases binds
      · refine ⟨?_, fun binds => ?_, carries.inside⟩
        · rw [Approaches, runs]
          dsimp only
          unfold Call.sightings
          cases attached : call.attachment? frame.vars with
          | none => exact .refl world
          | some method => exact .continued (mine method attached)
        · rw [runs] at binds
          cases binds

end

/-- Whatever becomes of a call, what is seen of it tells what it has done to the objects of programs,
and which methods it is suspended in. -/
theorem run_attends (addresses : code.Addresses) (context : ContextId) (depth : Nat)
    (invocation : Invocation) (frame : Frame) (machine : Machine)
    (owns : code.Owns invocation.function) (addressed : invocation.Addressed frame)
    (carries : frame.Carries held) :
    AttendsTo code held machine.world (invocation.sightings code context depth frame machine)
      (Invocation.run code context depth invocation frame machine).1
      (Invocation.run code context depth invocation frame machine).2.world := by
  induction depth generalizing invocation frame machine with
  | zero => exact .failed (.refl _)
  | succ depth ih =>
      let activation : Activation :=
        ⟨code, context, invocation.function.program, Invocation.run code context depth⟩
      have attending : Attending activation (Invocation.sightings code context depth) held :=
        ⟨addresses, ih⟩
      have comes := @entered_approaches held activation invocation frame carries addressed
        machine.world
      unfold Invocation.run Invocation.sightings
      generalize Invocation.entered invocation frame = entered at comes ⊢
      obtain ⟨call, frame⟩ := entered
      obtain ⟨approaches, starts, inside⟩ := comes
      have led := @Metered.advance_approaches code context held invocation call frame.vars
        machine.world _ frame machine owns (fun starting => starts (of_decide_eq_true starting))
        approaches
      have steps := @Metered.steps_eq activation invocation frame machine call
      dsimp only
      rw [steps]
      generalize Metered.advance _ _ _ _ _ _ _ = prepared at led ⊢
      cases prepared with
      | stopped ended =>
          obtain ⟨progress, after⟩ := ended
          have left := led.left
          cases progress with
          | done value => exact .done led.attaches True.intro
          | failed error => exact .failed led.attaches
          | suspended outer =>
              obtain ⟨same, mine⟩ := left outer rfl
              refine ⟨led.attaches, Frame.traces_iff.mpr
                ⟨fun method own => Or.inl (mine method own), fun entry among => ?_⟩⟩
              exact (inside entry (same ▸ among)).traces
      | ready next bound ready =>
          have reached := @bodyStep_attends held activation _ invocation next bound frame ready
            machine.world _ attending led (fun _ => led.of_sightings) inside
          simp only [Metered.Prepared.andThen]
          generalize Invocation.bodyStep _ _ _ _ _ _ = ended at reached ⊢
          obtain ⟨progress, after⟩ := ended
          cases progress with
          | failed error => exact .failed reached.attaches
          | done value => exact reached
          | suspended frame => exact reached

namespace Engine

variable {engine : Engine} {stack : Stack}

theorem entryCallee_addressed (addresses : engine.code.Addresses) {entry : EntryCall}
    {function : Function} {kept : Option FunctionId}
    (found : entryCallee engine.code stack entry = .found function kept) :
    (entry.invocation function stack.program).Addressed stack.root := by
  refine @callee_addressed _ _ (entry.invocation function stack.program) _ _ _
    (fun other id? resolved => ?_) found
  unfold EntryCall.invocation
  cases receiver : entry.receiver with
  | none =>
      simp only [receiver] at resolved
      exact ⟨fun _ => addresses.resolveCall resolved, fun _ => rfl⟩
  | some given =>
      simp only [receiver] at resolved
      have enclosed := Code.classBlock_of_resolveMethod resolved
      exact iff_of_false (Option.some_ne_none _) (Option.isSome_iff_ne_none.mp enclosed)

/-- What is seen while a call is driven tells what was done to the objects of programs, and which
methods its stack is suspended in. -/
theorem drive_attends (addresses : engine.code.Addresses) (carries : stack.root.Carries held)
    (gate : Gate) :
    Attaches engine.code held engine.world (engine.sightings stack gate)
        (engine.drive stack gate).engine.world ∧
      (engine.drive stack gate).stack.root.Traces held (engine.sightings stack gate) := by
  unfold drive sightings
  cases stack.entry with
  | none => exact ⟨.refl _, carries.traces⟩
  | some entry =>
      dsimp only
      split
      · exact ⟨.refl _, carries.traces⟩
      · cases found : entryCallee engine.code stack entry with
        | gone | notFound => exact ⟨.refl _, Frame.Carries.fresh.traces⟩
        | found function kept =>
            have reached := run_attends addresses stack.context engine.code.maxCallDepth
              (entry.invocation function stack.program) stack.root ⟨engine.world, gate⟩
              (entryCallee_owns addresses.consistent found) (entryCallee_addressed addresses found)
              carries
            unfold EntryCall.invocation at reached ⊢
            dsimp only
            generalize Invocation.run _ _ _ _ _ _ = ended at reached ⊢
            obtain ⟨progress, after⟩ := ended
            cases progress with
            | suspended root => exact ⟨reached.attaches, reached.traces⟩
            | done value => exact ⟨reached.attaches, Frame.Carries.fresh.traces⟩
            | failed error => exact ⟨reached.attaches, Frame.Carries.fresh.traces⟩

end Engine

def Frame.Followed (log : List Sighting) (frame : Frame) : Prop :=
  ∀ method ∈ frame.attachments, .started method ∈ log ∨ .loaded method ∈ log

namespace Frame

theorem Followed.mono {frame : Frame} {log : List Sighting} (followed : frame.Followed log)
    (more : List Sighting) : frame.Followed (log ++ more) :=
  fun method among => (followed method among).imp (List.mem_append_left _) (List.mem_append_left _)

mutual

theorem attachments_unbound : ∀ frame : Frame, frame.unbound.attachments = []
  | ⟨state, vars, temps, children⟩ => by
      have unnamed : Variables.this? (vars.map fun var => var.bind .unbound) = none := by
        have lost : Variables.find? (vars.map fun var => var.bind .unbound) (.reserved .this) =
            none := by
          simp [Variables.find?, Variable.bind]
        rw [Variables.this?, lost, Option.bind_none]
      rw [unbound, attachments, attachmentsIn_unbound children, List.append_nil]
      cases state with
      | call call =>
          rw [attachment?, call?, Option.bind_some, Call.attachment?_unnamed unnamed, Option.toList_none]
      | fresh | block | wait | eval => rfl

theorem attachmentsIn_unbound : ∀ children : List (Nat × Frame),
    attachmentsIn (unboundIn children) = []
  | [] => rfl
  | (_, child) :: rest => by
      rw [unboundIn, attachmentsIn, attachments_unbound child, attachmentsIn_unbound rest]
      rfl

end

mutual

/-- Restoring binds no call to another object. -/
theorem attachments_rebuilt (code : Code) : ∀ frame : Frame,
    (frame.rebuilt code).attachments ⊆ frame.attachments
  | ⟨state, vars, temps, children⟩ => by
      cases loaded : state.isLoaded code with
      | true =>
          rw [rebuilt_of_loaded loaded, attachments, attachments]
          refine List.append_subset.mpr ⟨List.subset_append_of_subset_left _ ?_,
            List.subset_append_of_subset_right _ (attachmentsIn_rebuiltIn code children)⟩
          exact fun _ own => own
      | false =>
          rw [rebuilt_of_gone loaded, attachments_unbound]
          exact List.nil_subset _

theorem attachmentsIn_rebuiltIn (code : Code) : ∀ children : List (Nat × Frame),
    attachmentsIn (rebuiltIn code children) ⊆ attachmentsIn children
  | [] => List.nil_subset _
  | (_, child) :: rest => by
      rw [rebuiltIn, attachmentsIn, attachmentsIn]
      exact List.append_subset.mpr
        ⟨List.subset_append_of_subset_left _ (attachments_rebuilt code child),
          List.subset_append_of_subset_right _ (attachmentsIn_rebuiltIn code rest)⟩

end

end Frame

theorem Paused.settled {known : List Function} {classes : ClassTable} {part : Part} {frame : Frame}
    (paused : Paused known classes part frame) : frame.Settled := by
  induction paused with
  | operand _ _ ih | callee _ _ ih | block _ _ ih =>
      exact Frame.settled_iff.mpr ⟨True.intro, List.forall_mem_singleton.mpr ih⟩
  | value _ _ ih | nested _ ih => exact ih
  | waiting => exact Frame.settled_iff.mpr ⟨True.intro, List.forall_mem_nil _⟩
  | queued => exact Frame.settled_iff.mpr ⟨Or.inl rfl, List.forall_mem_nil _⟩
  | declined => exact Frame.settled_iff.mpr ⟨Or.inr rfl, List.forall_mem_nil _⟩
  | running _ _ _ ih =>
      exact Frame.settled_iff.mpr ⟨Or.inr rfl, List.forall_mem_singleton.mpr ih⟩

namespace Engine

variable {engine after : Engine} {stack restored : Stack}

theorem Turn.unenclosed (turn : engine.Turn after)
    (unenclosed : ∀ program ∈ engine.code.programs, ∀ function ∈ program.functions,
      function.isPublic = true → function.signature.classBlock = none) :
    ∀ program ∈ after.code.programs, ∀ function ∈ program.functions,
      function.isPublic = true → function.signature.classBlock = none := by
  cases turn with
  | kept programs =>
      rw [programs]
      exact unenclosed
  | unloaded unloaded =>
      unfold Engine.unload at unloaded
      split at unloaded
      · cases unloaded
      · cases unloaded
        exact fun program among => unenclosed program (List.mem_filter.mp among).1
  | compiled name source =>
      unfold Engine.compile
      dsimp only
      cases compiled : Compiler.compile engine.compileEnv engine.ids.nextProgram.1 name source
        engine.ids.nextProgram.2 with
      | mk result behind =>
          cases result with
          | error error => exact unenclosed
          | ok program =>
              exact List.forall_mem_append.mpr ⟨unenclosed,
                List.forall_mem_singleton.mpr (Compiler.compile_unenclosed compiled)⟩

theorem restore_attachments {past : Past} (fits : past.Fits engine.code)
    (formed : stack.Formed past) (done : engine.restore stack.unbound = .ok (after, restored)) :
    restored.root.attachments ⊆ stack.root.attachments := by
  obtain ⟨_, _, rfl⟩ | ⟨_, _, _, rfl⟩ := restore_cases done
  · rw [Stack.unbound, Frame.attachments_unbound]
    exact List.nil_subset _
  · have rebuilt := (@Restoration.callFrame_rebuilds _ _ stack.context fits _ formed.shape
      engine.world.guards).2
    dsimp only [Stack.unbound]
    rw [rebuilt]
    exact Frame.attachments_rebuilt ..

end Engine

namespace Host

variable {log : List Sighting} {host : Host} {operation : Operation} {ride : Ride}

theorem Reachable.unenclosed (reachable : host.Reachable) :
    ∀ program ∈ host.engine.code.programs, ∀ function ∈ program.functions,
      function.isPublic = true → function.signature.classBlock = none := by
  induction reachable with
  | fresh => exact List.forall_mem_nil _
  | step operation _ ih => exact (step_turn _ operation).unenclosed ih
  | restored _ _ _ _ _ ih => exact (restoring_turn _ _).unenclosed ih
  | dropped _ _ ih => exact ih

theorem Reachable.addresses (reachable : host.Reachable) : host.engine.code.Addresses := by
  obtain ⟨known, resting⟩ := reachable.resting
  refine ⟨resting.knows.consistent, fun function among => ?_⟩
  obtain ⟨loaded, held, declared, isPublic⟩ := resting.knows.mem_publicFunctions.mp among
  exact reachable.unenclosed loaded held function declared isPublic

/-- The stack that is driven carries calls that it was suspended in. -/
theorem Reachable.ridden (reachable : host.Reachable) (rides : host.rides operation = some ride) :
    ride.stack.root.Carries ride.stack.root.attachments := by
  refine ⟨?_, fun _ among => among⟩
  obtain ⟨known, resting⟩ := reachable.resting
  obtain ⟨stack, here, rfl | ⟨_, fresh⟩⟩ := rides_place rides
  · rcases resting.rests _ (List.mem_of_getElem? here) with fresh | ⟨function, paused⟩
    · rw [fresh]
      exact Frame.settled_fresh
    · exact paused.settled
  · rw [fresh]
    exact Frame.settled_fresh

theorem Reachable.rides_attends (reachable : host.Reachable)
    (rides : host.rides operation = some ride) :
    Attaches host.engine.code ride.stack.root.attachments host.engine.world
        (host.sightings operation) (host.step operation).engine.world ∧
      (host.engine.drive ride.stack ride.gate).stack.root.Traces ride.stack.root.attachments
        (host.sightings operation) := by
  have attends := Engine.drive_attends reachable.addresses (reachable.ridden rides) ride.gate
  simp only [sightings, rides, step_of_rides rides]
  exact attends

theorem ridden_followed (followed : ∀ stack ∈ host.executions, stack.root.Followed log)
    (rides : host.rides operation = some ride) : ride.stack.root.Followed log := by
  obtain ⟨stack, here, rfl | ⟨_, fresh⟩⟩ := rides_place rides
  · exact followed _ (List.mem_of_getElem? here)
  · rw [fresh]
    exact fun _ among => nomatch among

theorem Reachable.step_followed (reachable : host.Reachable)
    (followed : ∀ stack ∈ host.executions, stack.root.Followed log) :
    ∀ stack ∈ (host.step operation).executions,
      stack.root.Followed (log ++ host.sightings operation) := by
  cases rides : host.rides operation with
  | some ride =>
      rw [step_of_rides rides]
      intro stack among
      rcases List.mem_or_eq_of_mem_set among with kept | rfl
      · exact (followed stack kept).mono _
      · intro method attached
        rcases (reachable.rides_attends rides).2 method attached with old | started
        · exact (ridden_followed followed rides).mono _ method old
        · exact Or.inl (List.mem_append_right _ started)
  | none =>
      have unseen : host.sightings operation = [] := by simp only [sightings, rides]
      rw [unseen, List.append_nil]
      cases requested : operation.isRequest with
      | true =>
          rw [step_refused requested rides]
          exact followed
      | false =>
          obtain ⟨known, resting⟩ := reachable.resting
          have fresh : ({} : Frame).Followed log := fun _ among => nomatch among
          -- The stacks that are restored are those in their places.
          have formed : ∀ stack ∈ host.executions, stack.root.Followed log ∧
              stack.Formed (host.engine.past known) :=
            fun stack among => ⟨followed stack among, resting.executions stack among⟩
          refine fun stack among => (step_stacks formed (fun _ _ => ⟨fresh, .fresh, fun _ => rfl⟩)
            (fun asked => nomatch requested.symm.trans asked)
            (fun stack => ⟨fresh, Stack.finish_formed _ stack⟩) (fun held done => ⟨?_, ?_⟩) stack
            among).1
          · exact fun method attached => held.1 method
              (Engine.restore_attachments resting.knows.fits held.2 done attached)
          · exact Engine.restore_formed resting.knows.fits held.2 done

end Host

end ScriptEngine
