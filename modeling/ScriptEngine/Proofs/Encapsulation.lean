import ScriptEngine.Proofs.Sharing
import ScriptEngine.Proofs.SinglePath
/-! Encapsulation. A member is stored through `this` alone, and only the bodies of methods name members,
so a call that is driven leaves every object as it was on which no method has run. Objects are added
while scripts run and never freed, and no object gets another class or other members. -/

namespace ScriptEngine

def Variable.declaration (var : Variable) : String × DataType × Bool :=
  (var.name, var.type, var.isPrivate)

/-- Objects of one class with members that are declared alike. -/
structure Object.Alike (object other : Object) : Prop where
  className : other.className = object.className
  fields : other.fields.map Variable.declaration = object.fields.map Variable.declaration

namespace Object.Alike

variable {object between other : Object}

theorem refl (object : Object) : object.Alike object := ⟨rfl, rfl⟩

theorem trans (first : object.Alike between) (second : between.Alike other) : object.Alike other :=
  ⟨second.className.trans first.className, second.fields.trans first.fields⟩

theorem stored (object : Object) (name : String) (value : Value) :
    object.Alike (object.updateField name fun field => field.set value) where
  className := rfl
  fields := by
    unfold updateField
    induction object.fields with
    | nil => rfl
    | cons field rest ih =>
        rw [Variables.updateFirst]
        split
        · rfl
        · rw [List.map_cons, List.map_cons, ih]

end Object.Alike

namespace Heap

variable {heap middle later : Heap} {handle : Handle} {object made : Object}
  {touched : Handle → Prop}

/-- A live object: its handle finds it, in a slot that is not vacant. -/
structure Holds (heap : Heap) (handle : Handle) (object : Object) : Prop where
  found : heap.get? handle = some object
  kept : handle.index ∉ heap.vacant

theorem allocate_holds (made : Object) (holds : heap.Holds handle object) :
    (heap.allocate made).2.Holds handle object := by
  have live := get?_eq_some_iff.mp holds.found
  have appended : Holds { heap with slots := heap.slots ++ [⟨0, some made⟩] } handle object := by
    refine ⟨get?_eq_some_iff.mpr ?_, holds.kept⟩
    exact (List.getElem?_append_left (List.getElem?_eq_some_iff.mp live).1).trans live
  unfold allocate
  cases last : heap.vacant.getLast? with
  | none => exact appended
  | some index =>
      have apart : index ≠ handle.index := by
        rintro rfl
        exact holds.kept (List.mem_of_getLast? last)
      rw [Option.bind_some]
      cases heap.slots[index]? with
      | none => exact appended
      | some slot =>
          exact ⟨get?_eq_some_iff.mpr ((List.getElem?_set_ne apart).trans live),
            fun among => holds.kept (List.dropLast_subset _ among)⟩

structure ChangesOnly (touched : Handle → Prop) (heap later : Heap) : Prop where
  holds : ∀ handle object, heap.Holds handle object → ∃ changed, later.Holds handle changed ∧
    object.Alike changed ∧ (¬ touched handle → changed = object)

namespace ChangesOnly

theorem refl (heap : Heap) : heap.ChangesOnly touched heap :=
  ⟨fun _ object holds => ⟨object, holds, .refl object, fun _ => rfl⟩⟩

theorem trans (first : heap.ChangesOnly touched middle) (second : middle.ChangesOnly touched later) :
    heap.ChangesOnly touched later where
  holds := fun handle object holds => by
    obtain ⟨between, holds, alike, same⟩ := first.holds handle object holds
    obtain ⟨changed, holds, also, still⟩ := second.holds handle between holds
    exact ⟨changed, holds, alike.trans also, fun apart => (still apart).trans (same apart)⟩

theorem allocate (heap : Heap) (made : Object) : heap.ChangesOnly touched (heap.allocate made).2 :=
  ⟨fun _ object holds => ⟨object, allocate_holds made holds, .refl object, fun _ => rfl⟩⟩

theorem store (may : touched handle) (name : String) (value : Value) :
    heap.ChangesOnly touched (heap.update handle fun object =>
      object.updateField name fun field => field.set value) where
  holds := fun other object holds => by
    have vacant : ∀ change : Object → Object, (heap.update handle change).vacant = heap.vacant := by
      intro change
      unfold update
      split <;> rfl
    by_cases same : handle = other
    · subst same
      refine ⟨_, ⟨?_, vacant _ ▸ holds.kept⟩, .stored object name value,
        fun apart => absurd may apart⟩
      rw [get?_update, if_pos rfl, holds.found]
      rfl
    · refine ⟨object, ⟨?_, vacant _ ▸ holds.kept⟩, .refl object, fun _ => rfl⟩
      rw [get?_update, if_neg same]
      exact holds.found

end ChangesOnly

end Heap

/-- A call of a method whose body runs, and the object that is `this` in it. -/
structure Visit where
  function : Function
  this : Handle

namespace Invocation

def visit (function : Function) (vars : Variables) : List Visit :=
  match function.owner, vars.this? with
  | some _, some handle => [⟨function, handle⟩]
  | some _, none | none, _ => []

/-- The methods that run until a call ends or yields, those that are called by them included. -/
def visits (code : Code) (context : ContextId) :
    Nat → Invocation → Frame → Machine → List Visit
  | 0, _, _, _ => []
  | depth + 1, invocation, frame, machine =>
      let activation : Activation :=
        ⟨code, context, invocation.function.program, run code context depth⟩
      let (call, frame) := entered invocation frame
      match Metered.advance code context invocation call frame.vars frame machine with
      | .stopped _ => []
      | .ready _ vars machine =>
          let (allowed, gate) := machine.gate.ask
          if !allowed then []
          else
            let body := frame.child 0
            visit invocation.function vars ++
              Evaluation.stmtsNotes (.silent Visit) activation invocation.function
                (visits code context depth) 0 invocation.function.body.stmts
                { body with state := .block body.nextStatement } ⟨vars, { machine with gate }⟩

end Invocation

/-- The methods that run while the call on a stack is driven. -/
def Engine.visits (engine : Engine) (stack : Stack) (gate : Gate) : List Visit :=
  match stack.entry with
  | none => []
  | some entry =>
      if (engine.code.programs.get? stack.program).isNone then []
      else match entryCallee engine.code stack entry with
        | .found function _ =>
            Invocation.visits engine.code stack.context engine.code.maxCallDepth
              (entry.invocation function stack.program) stack.root ⟨engine.world, gate⟩
        | .gone | .notFound _ => []

def Visit.Listed (touched : Handle → Prop) (visits : List Visit) : Prop :=
  ∀ visit ∈ visits, touched visit.this

theorem Visit.listed_append {touched : Handle → Prop} {first second : List Visit} :
    Listed touched (first ++ second) ↔ Listed touched first ∧ Listed touched second :=
  List.forall_mem_append

structure Confining (activation : Activation) (nested : Invocation → Frame → Machine → List Visit)
    (touched : Handle → Prop) : Prop where
  consistent : activation.code.Consistent
  typed : ∀ function, activation.code.Owns function → ∃ names, function.Typed names
  nested : ∀ invocation frame machine, activation.code.Owns invocation.function →
    Visit.Listed touched (nested invocation frame machine) →
      machine.world.heap.ChangesOnly touched
        (activation.call invocation frame machine).2.world.heap

section

variable {activation : Activation} {function : Function}
  {nested : Invocation → Frame → Machine → List Visit} {touched : Handle → Prop}

theorem keepCallee_heap (world : World) (site : SiteId) (id? : Option FunctionId) :
    (world.keepCallee site id?).heap = world.heap := by
  cases id? <;> rfl

theorem operand_confined (slot : Nat) {evaluate : Frame → Machine → Progress Value × Machine}
    {notes : Frame → Machine → List Visit}
    (evaluated : ∀ frame machine, Visit.Listed touched (notes frame machine) →
      machine.world.heap.ChangesOnly touched (evaluate frame machine).2.world.heap)
    (frame : Frame) (machine : Machine)
    (listed : Visit.Listed touched (Evaluation.operandNotes slot notes frame machine)) :
    machine.world.heap.ChangesOnly touched
      (Evaluation.operand slot evaluate frame machine).2.world.heap := by
  unfold Evaluation.operand
  unfold Evaluation.operandNotes at listed
  split
  · exact .refl _
  · rename_i due
    rw [if_neg due] at listed
    have reached := evaluated (frame.child slot) machine listed
    generalize evaluate (frame.child slot) machine = ended at reached ⊢
    obtain ⟨progress, after⟩ := ended
    cases progress <;> exact reached

theorem callSite_confined (confining : Confining activation nested touched) (site : CallSite)
    (types : List DataType) (frame : Frame) (machine : Machine)
    (listed : Visit.Listed touched
      (Evaluation.siteNotes activation nested site types frame machine)) :
    machine.world.heap.ChangesOnly touched
      (Evaluation.callSite activation site types frame machine).2.world.heap := by
  rw [Evaluation.callSite_eq]
  unfold Evaluation.siteNotes at listed
  cases chosen : Evaluation.choose activation site types frame machine with
  | error error => exact .refl _
  | ok choice =>
      rw [chosen] at listed
      obtain ⟨callee, receiver, args⟩ := choice
      cases callee with
      | gone | notFound => exact .refl _
      | found function kept =>
          have owns := Evaluation.choose_owns confining.consistent chosen
          have reached := confining.nested
            ⟨function, receiver, args, some site.span, activation.program⟩
            (frame.child types.length)
            { machine with
              world := machine.world.keepCallee ⟨activation.program, site.offset⟩ kept } owns listed
          rw [keepCallee_heap] at reached
          simp only [Evaluation.enterSite]
          generalize activation.call _ _ _ = ended at reached ⊢
          obtain ⟨progress, after⟩ := ended
          cases progress <;> exact reached

mutual

theorem evalExpr_confined (confining : Confining activation nested touched) (vars : Variables) :
    ∀ (expr : Expr) (frame : Frame) (machine : Machine), Visit.Listed touched
      (Evaluation.exprNotes (.silent Visit) activation function nested vars expr frame machine) →
      machine.world.heap.ChangesOnly touched
        (Evaluation.evalExpr activation vars expr frame machine).2.world.heap
  | .literal .., _, _, _ | .var .., _, _, _ => by
      rw [Evaluation.evalExpr]
      exact .refl _
  | .negate type span inner, frame, machine, listed => by
      rw [Evaluation.exprNotes, Visit.listed_append] at listed
      rw [Evaluation.evalExpr]
      have reached := operand_confined 0 (evalExpr_confined confining vars inner) frame.startEval
        machine listed.1
      generalize Evaluation.operand _ _ _ _ = ended at reached ⊢
      obtain ⟨progress, after⟩ := ended
      cases progress <;> exact reached
  | .binary type span operator left right, frame, machine, listed => by
      rw [Evaluation.exprNotes, Visit.listed_append, Visit.listed_append] at listed
      obtain ⟨⟨one, two⟩, _⟩ := listed
      rw [Evaluation.evalExpr]
      have first := operand_confined 0 (evalExpr_confined confining vars left) frame.startEval
        machine one
      generalize Evaluation.operand 0 _ _ _ = ended at first two ⊢
      obtain ⟨progress, after⟩ := ended
      cases progress with
      | suspended frame => exact first
      | failed error => exact first
      | done frame =>
          have second := operand_confined 1 (evalExpr_confined confining vars right) frame after two
          dsimp only
          generalize Evaluation.operand 1 _ _ _ = ended at second ⊢
          obtain ⟨progress, behind⟩ := ended
          cases progress <;> exact first.trans second
  | .call type span site operands, frame, machine, listed => by
      rw [Evaluation.exprNotes, Visit.listed_append, Visit.listed_append] at listed
      obtain ⟨⟨before, called⟩, _⟩ := listed
      rw [Evaluation.evalExpr]
      have reached := evalOperands_confined confining vars 0 operands frame.startEval machine before
      generalize Evaluation.evalOperands _ _ _ _ _ _ = ended at reached called ⊢
      obtain ⟨progress, after⟩ := ended
      cases progress with
      | suspended frame => exact reached
      | failed error => exact reached
      | done frame => exact reached.trans (callSite_confined confining _ _ _ _ called)

theorem evalOperands_confined (confining : Confining activation nested touched) (vars : Variables)
    (slot : Nat) : ∀ (operands : List Expr) (frame : Frame) (machine : Machine),
      Visit.Listed touched (Evaluation.operandsNotes (.silent Visit) activation function nested vars
        slot operands frame machine) →
      machine.world.heap.ChangesOnly touched
        (Evaluation.evalOperands activation vars slot operands frame machine).2.world.heap
  | [], _, _, _ => by
      rw [Evaluation.evalOperands]
      exact .refl _
  | first :: rest, frame, machine, listed => by
      rw [Evaluation.operandsNotes, Visit.listed_append] at listed
      obtain ⟨here, behind⟩ := listed
      rw [Evaluation.evalOperands]
      have reached := operand_confined slot (evalExpr_confined confining vars first) frame machine here
      generalize Evaluation.operand _ _ _ _ = ended at reached behind ⊢
      obtain ⟨progress, after⟩ := ended
      cases progress with
      | suspended frame => exact reached
      | failed error => exact reached
      | done frame =>
          exact reached.trans (evalOperands_confined confining vars (slot + 1) rest _ _ behind)

end

end

section

variable {activation : Activation} {function : Function}
  {nested : Invocation → Frame → Machine → List Visit} {touched : Handle → Prop}

def Surroundings.MayStore (inside : Surroundings) (touched : Handle → Prop) (vars : Variables) :
    Prop :=
  inside.owner.isSome = true → ∀ handle, vars.this? = some handle → touched handle

theorem evalThen_confined (confining : Confining activation nested touched) (expr : Expr)
    (frame : Frame) (state : RunState)
    (listed : Visit.Listed touched
      (Evaluation.valueNotes (.silent Visit) activation function nested expr frame state))
    {continueWith : Value → RunState → Progress Completion × RunState}
    (continued : ∀ (value : Value) (machine : Machine), machine.world.heap.ChangesOnly touched
      (continueWith value { state with machine }).2.machine.world.heap) :
    state.machine.world.heap.ChangesOnly touched
      (Evaluation.evalThen activation expr frame state continueWith).2.machine.world.heap := by
  have reached := evalExpr_confined confining state.vars expr frame state.machine listed
  unfold Evaluation.evalThen
  generalize Evaluation.evalExpr _ _ _ _ _ = ended at reached ⊢
  obtain ⟨progress, after⟩ := ended
  cases progress with
  | suspended frame => exact reached
  | failed error => exact reached
  | done value => exact reached.trans (continued value after)

theorem waitStep_machine (frame : Frame) (state : RunState) (remaining : Nat) :
    (Evaluation.waitStep frame state remaining).2.machine = state.machine := by
  cases remaining <;> rfl

theorem writeVariable_heap {heap changed : Heap} {vars written : Variables} {target : Target}
    {value : Value} {span : Span}
    (wrote : Evaluation.writeVariable heap vars target value span = .ok (changed, written)) :
    changed = heap ∨ ∃ name handle stored, target = .member name ∧ vars.this? = some handle ∧
      changed = heap.update handle fun object =>
        object.updateField name fun field => field.set stored := by
  unfold Evaluation.writeVariable at wrote
  cases target with
  | reserved name => cases wrote
  | «local» id =>
      dsimp only at wrote
      split at wrote
      · cases wrote
      · obtain ⟨stored, _, wrote⟩ := ok_of_bind wrote
        cases wrote
        exact Or.inl rfl
  | member name =>
      dsimp only at wrote
      split at wrote
      · cases wrote
      · rename_i handle bound
        split at wrote
        · cases wrote
        · split at wrote
          · cases wrote
          · obtain ⟨stored, _, wrote⟩ := ok_of_bind wrote
            cases wrote
            exact Or.inr ⟨name, handle, stored, rfl, bound, rfl⟩

theorem assign_confined {inside : Surroundings} {locals : Locals} {target : Target} {type : DataType}
    (named : inside.Names locals target type) (span : Span) (value : Value) (state : RunState)
    (may : inside.MayStore touched state.vars) : state.machine.world.heap.ChangesOnly touched
      (Evaluation.assign target span value state).2.machine.world.heap := by
  unfold Evaluation.assign
  split
  · rename_i wrote
    rcases writeVariable_heap wrote with rfl | ⟨_, handle, stored, rfl, bound, rfl⟩
    · exact .refl _
    · cases named with
      | member owned =>
          exact .store (may (Option.isSome_of_eq_some owned) handle bound) _ stored
  · exact .refl _

mutual

theorem execStmt_confined (confining : Confining activation nested touched)
    {inside : Surroundings} : ∀ (stmt : Stmt) (locals : Locals) (frame : Frame) (state : RunState),
      stmt.Typed inside locals → inside.MayStore touched state.vars →
      Visit.Listed touched
        (Evaluation.stmtNotes (.silent Visit) activation function nested stmt frame state) →
      state.machine.world.heap.ChangesOnly touched
        (Evaluation.execStmt activation stmt frame state).2.machine.world.heap
  | .block _ stmts, locals, frame, state, typed, may, listed => by
      rw [Evaluation.stmtNotes] at listed
      rw [Evaluation.execStmt]
      exact execStmts_confined confining 0 stmts locals _ state typed may listed
  | .return _ none, _, _, _, _, _, _ | .declare _ _ _ _ none, _, _, _, _, _, _ => by
      rw [Evaluation.execStmt]
      exact .refl _
  | .return _ (some expr), _, frame, state, _, _, listed | .expr expr, _, frame, state, _, _, listed => by
      rw [Evaluation.stmtNotes] at listed
      rw [Evaluation.execStmt]
      exact evalThen_confined confining expr frame state listed fun _ _ => .refl _
  | .wait _ count, _, frame, state, _, _, listed => by
      rw [Evaluation.stmtNotes] at listed
      rw [Evaluation.execStmt]
      generalize frame.state = place at listed ⊢
      cases place with
      | wait remaining =>
          dsimp only
          rw [waitStep_machine]
          exact .refl _
      | fresh | call | block | eval =>
          refine evalThen_confined confining count frame state listed fun _ _ => ?_
          rw [waitStep_machine]
          exact .refl _
  | .declare span id name type (some expr), _, frame, state, _, _, listed => by
      rw [Evaluation.stmtNotes] at listed
      rw [Evaluation.execStmt]
      refine evalThen_confined confining expr frame state listed fun value state => ?_
      split <;> exact .refl _
  | .assign span target expr, locals, frame, state, typed, may, listed => by
      rw [Evaluation.stmtNotes, Visit.listed_append] at listed
      obtain ⟨_, type, named, _⟩ := typed
      rw [Evaluation.execStmt]
      refine evalThen_confined confining expr frame state listed.1 fun value machine => ?_
      exact assign_confined named span value { state with machine } may

theorem execStmts_confined (confining : Confining activation nested touched)
    {inside : Surroundings} (place : Nat) :
    ∀ (stmts : List Stmt) (locals : Locals) (frame : Frame) (state : RunState),
      Stmt.TypedIn inside locals stmts → inside.MayStore touched state.vars →
      Visit.Listed touched (Evaluation.stmtsNotes (.silent Visit) activation function nested place
        stmts frame state) →
      state.machine.world.heap.ChangesOnly touched
        (Evaluation.execStmts activation place stmts frame state).2.machine.world.heap
  | [], _, _, _, _, _, _ => by
      rw [Evaluation.execStmts]
      exact .refl _
  | first :: rest, locals, frame, state, typed, may, listed => by
      rw [Evaluation.stmtsNotes] at listed
      rw [Evaluation.execStmts]
      split
      · rename_i passed
        rw [if_pos passed] at listed
        exact execStmts_confined confining (place + 1) rest _ frame state typed.2 may listed
      · rename_i due
        rw [if_neg due, Visit.listed_append] at listed
        obtain ⟨here, behind⟩ := listed
        have reached := execStmt_confined confining first locals (frame.child place) state typed.1
          may here
        have same := @execStmt_this activation first (frame.child place) state
        generalize Evaluation.execStmt _ _ _ _ = ended at reached same behind ⊢
        obtain ⟨progress, after⟩ := ended
        cases progress with
        | suspended child => exact reached
        | failed error => exact reached
        | done completion =>
            cases completion with
            | «return» value => exact reached
            | next =>
                refine reached.trans (execStmts_confined confining (place + 1) rest _ _ after typed.2
                  (fun owned handle bound => may owned handle ?_) behind)
                exact same.symm.trans bound

end

end

namespace Metered

variable {code : Code} {context : ContextId} {invocation : Invocation} {touched : Handle → Prop}

def Prepared.machine : Prepared → Machine
  | .stopped (_, machine) => machine
  | .ready _ _ machine => machine

theorem step_confined (call : Call) (vars : Variables) (frame : Frame) (machine : Machine) :
    match step code context invocation call vars frame machine with
    | .error (_, after) => machine.world.heap.ChangesOnly touched after.world.heap
    | .ok (_, after) => machine.world.heap.ChangesOnly touched after.world.heap := by
  unfold step
  cases call.step with
  | runBody => exact .refl _
  | bindParams =>
      dsimp only
      obtain ⟨vars, refused⟩ := invocation.function.params.bind invocation.args vars
      cases refused <;> exact .refl _
  | acquireGuard =>
      dsimp only
      obtain ⟨taken, guards⟩ := machine.world.guards.tryLock (invocation.function.owner.getD "") context
      cases taken <;> exact .refl _
  | bindInstance =>
      dsimp only
      cases done : Invocation.bindInstance code invocation vars machine.world with
      | error error => exact .refl _
      | ok bound =>
          obtain ⟨vars, world⟩ := bound
          dsimp only
          rcases bindInstance_cases done with ⟨_, _, rfl⟩ | ⟨_, _, _, _, rfl | made⟩
          · exact .refl _
          · exact .refl _
          · rcases Invocation.programInstance_cases made with ⟨rfl, _⟩ | ⟨_, _, _, _, heap, _⟩
            · exact .refl _
            · exact heap ▸ .allocate ..

theorem advance_confined (call : Call) (vars : Variables) (frame : Frame) (machine : Machine) :
    machine.world.heap.ChangesOnly touched
      (advance code context invocation call vars frame machine).machine.world.heap := by
  fun_induction advance code context invocation call vars frame machine with
  | case1 => exact .refl _
  | case2 call vars machine _ ended stopped =>
      have taken := @step_confined code context invocation touched call vars frame machine
      rw [stopped] at taken
      exact taken
  | case3 call vars machine _ _ _ taken ih =>
      have here := @step_confined code context invocation touched call vars frame machine
      rw [taken] at here
      exact here.trans ih

end Metered

theorem releaseGuard_heap (context : ContextId) (call : Call) (machine : Machine) :
    (Invocation.releaseGuard context call machine).world.heap = machine.world.heap := by
  unfold Invocation.releaseGuard
  split <;> rfl

section

variable {activation : Activation} {nested : Invocation → Frame → Machine → List Visit}
  {touched : Handle → Prop} (invocation : Invocation)

theorem mayStore_of_visit {names : CallScope} {function : Function} {vars : Variables}
    (listed : Visit.Listed touched (Invocation.visit function vars)) :
    (function.surroundings names).MayStore touched vars := by
  intro owned handle bound
  obtain ⟨owner, owned⟩ := Option.isSome_iff_exists.mp owned
  have named : function.owner = some owner := owned
  refine listed ⟨function, handle⟩ ?_
  simp only [Invocation.visit, named, bound, List.mem_singleton]

theorem bodyStep_confined (confining : Confining activation nested touched)
    (owns : activation.code.Owns invocation.function) (call : Call) (vars : Variables)
    (frame : Frame) (machine : Machine)
    (listed : machine.gate.ask.1 = true → Visit.Listed touched
      (Invocation.visit invocation.function vars ++
        Evaluation.stmtsNotes (.silent Visit) activation invocation.function nested 0
          invocation.function.body.stmts
          { frame.child 0 with state := .block (frame.child 0).nextStatement }
          ⟨vars, { machine with gate := machine.gate.ask.2 }⟩)) :
    machine.world.heap.ChangesOnly touched
      (Invocation.bodyStep activation invocation call vars frame machine).2.world.heap := by
  obtain ⟨names, typed⟩ := confining.typed _ owns
  unfold Invocation.bodyStep
  dsimp only
  cases allowed : machine.gate.ask.1 with
  | false => exact .refl _
  | true =>
      obtain ⟨here, inside⟩ := Visit.listed_append.mp (listed allowed)
      have reached := execStmts_confined confining 0 invocation.function.body.stmts _
        { Frame.child { frame with state := .call call, vars } 0 with
          state := .block (Frame.child { frame with state := .call call, vars } 0).nextStatement }
        ⟨vars, { machine with gate := machine.gate.ask.2 }⟩ typed.body (mayStore_of_visit here) inside
      simp only [Bool.not_true, Bool.false_eq_true, if_false, Evaluation.execBlock]
      generalize Evaluation.execStmts _ _ _ _ _ = ended at reached ⊢
      obtain ⟨progress, after⟩ := ended
      cases progress with
      | suspended child => exact reached
      | failed error => exact (releaseGuard_heap ..).symm ▸ reached
      | done completion => exact (releaseGuard_heap ..).symm ▸ reached

end

/-- Whatever becomes of a call, it changes no object but those that methods have run on. -/
theorem run_confined {code : Code} (consistent : code.Consistent)
    (typed : ∀ function, code.Owns function → ∃ names, function.Typed names)
    {touched : Handle → Prop} (context : ContextId) (depth : Nat) (invocation : Invocation)
    (frame : Frame) (machine : Machine) (owns : code.Owns invocation.function)
    (listed : Visit.Listed touched (invocation.visits code context depth frame machine)) :
    machine.world.heap.ChangesOnly touched
      (Invocation.run code context depth invocation frame machine).2.world.heap := by
  induction depth generalizing invocation frame machine with
  | zero => exact .refl _
  | succ depth ih =>
      let activation : Activation :=
        ⟨code, context, invocation.function.program, Invocation.run code context depth⟩
      have confining : Confining activation (Invocation.visits code context depth) touched :=
        ⟨consistent, typed, ih⟩
      unfold Invocation.visits at listed
      unfold Invocation.run
      generalize Invocation.entered invocation frame = entered at listed ⊢
      obtain ⟨call, frame⟩ := entered
      have before := @Metered.advance_confined code context invocation touched call frame.vars frame
        machine
      dsimp only at listed ⊢
      have led := Metered.steps_eq activation invocation frame machine call
      rw [led]
      generalize Metered.advance _ _ _ _ _ _ _ = prepared at listed before ⊢
      cases prepared with
      | stopped ended =>
          obtain ⟨progress, after⟩ := ended
          cases progress <;> exact before
      | ready call vars between =>
          have reached := bodyStep_confined invocation confining owns call vars frame between
            fun allowed => by simpa [allowed] using listed
          simp only [Metered.Prepared.andThen]
          generalize Invocation.bodyStep _ _ _ _ _ _ = ended at reached ⊢
          obtain ⟨progress, after⟩ := ended
          cases progress <;> exact before.trans reached

theorem Engine.drive_confined {engine : Engine} (consistent : engine.code.Consistent)
    (typed : ∀ function, engine.code.Owns function → ∃ names, function.Typed names)
    (stack : Stack) (gate : Gate) : engine.world.heap.ChangesOnly
      (fun handle => ∃ visit ∈ engine.visits stack gate, visit.this = handle)
      (engine.drive stack gate).engine.world.heap := by
  have listed : Visit.Listed (fun handle => ∃ visit ∈ engine.visits stack gate, visit.this = handle)
      (engine.visits stack gate) := fun visit among => ⟨visit, among, rfl⟩
  generalize (fun handle => ∃ visit ∈ engine.visits stack gate, visit.this = handle) = touched
    at listed ⊢
  unfold visits at listed
  unfold drive
  cases started : stack.entry with
  | none => exact .refl _
  | some entry =>
      rw [started] at listed
      dsimp only at listed ⊢
      split
      · exact .refl _
      · rename_i loaded
        rw [if_neg loaded] at listed
        cases found : entryCallee engine.code stack entry with
        | gone | notFound => exact .refl _
        | found function kept =>
            rw [found] at listed
            have reached := run_confined consistent typed stack.context engine.code.maxCallDepth
              (entry.invocation function stack.program) stack.root ⟨engine.world, gate⟩
              (entryCallee_owns consistent found) listed
            unfold EntryCall.invocation at reached
            dsimp only
            generalize Invocation.run _ _ _ _ _ _ = ended at reached ⊢
            obtain ⟨progress, after⟩ := ended
            cases progress <;> exact reached

/-- Scripts change no object but the one that they run on. Whatever a host did before, and whatever
stack it drives under whatever gate, all objects stay live, of their classes and with their members,
and an object on which no method has run stays as it is. -/
theorem objects_change_by_own_methods (operations : List Operation) (stack : Stack) (gate : Gate) :
    let engine := (Host.after operations).engine
    ∀ handle object, engine.world.heap.Holds handle object →
      ∃ changed, (engine.drive stack gate).engine.world.heap.Holds handle changed ∧
        changed.className = object.className ∧
        changed.fields.map Variable.declaration = object.fields.map Variable.declaration ∧
        ((∀ visit ∈ engine.visits stack gate, visit.this ≠ handle) → changed = object) := by
  obtain ⟨known, resting⟩ := (Host.after_reachable operations).resting
  have sound := resting.sound
  generalize (Host.after operations).engine = engine at sound ⊢
  have typed : ∀ function, engine.code.Owns function → ∃ names, function.Typed names := by
    intro function owns
    obtain ⟨program, loaded, _, among, _⟩ := sound.function?_iff.mp owns
    obtain ⟨names, typed, _⟩ := sound.typed program loaded function among
    exact ⟨names, typed⟩
  intro _ handle object holds
  obtain ⟨changed, still, alike, same⟩ :=
    (Engine.drive_confined sound.consistent typed stack gate).holds handle object holds
  refine ⟨changed, still, alike.className, alike.fields, fun apart => same ?_⟩
  rintro ⟨visit, among, here⟩
  exact apart visit among here

def lendingTanks : List Operation :=
  [.register { name := "Tank", fields := [⟨"level", .int, false⟩, ⟨"next", .object "Tank", true⟩] },
    .compile "tank" "class Tank \x7b
      int lend(Tank kept, Tank filled) \x7b next = kept; wait(1); return filled.take(4); \x7d
      int take(int amount) \x7b level = level + amount; return level; \x7d
    \x7d",
    .newInstance "Tank", .newInstance "Tank", .newInstance "Tank", .newStack ⟨1⟩,
    .callMethod 0 ⟨0, 0⟩ "lend" [.pointer "" "Tank" ⟨1, 0⟩, .pointer "" "Tank" ⟨2, 0⟩] .unlimited]

theorem objects_change_by_own_methods_of_tanks : ∃ stack ∈ (Host.after lendingTanks).executions,
    let engine := (Host.after lendingTanks).engine
    (engine.visits stack .unlimited).map Visit.this = [⟨0, 0⟩, ⟨2, 0⟩] ∧
    ∃ object, engine.world.heap.Holds ⟨1, 0⟩ object ∧
      (engine.drive stack .unlimited).engine.world.heap.Holds ⟨1, 0⟩ object := by
  obtain ⟨shown, live, full⟩ :
      ((Host.after lendingTanks).executions.head?.any fun stack => decide
        (((Host.after lendingTanks).engine.visits stack .unlimited).map Visit.this =
          [⟨0, 0⟩, ⟨2, 0⟩])) = true ∧
      ((Host.after lendingTanks).engine.world.heap.get? ⟨1, 0⟩).isSome = true ∧
      (Host.after lendingTanks).engine.world.heap.vacant = [] := by
    decide +kernel
  cases first : (Host.after lendingTanks).executions.head? with
  | none =>
      rw [first] at shown
      cases shown
  | some stack =>
      rw [first, Option.any_some, decide_eq_true_eq] at shown
      obtain ⟨object, found⟩ := Option.isSome_iff_exists.mp live
      have holds : (Host.after lendingTanks).engine.world.heap.Holds ⟨1, 0⟩ object :=
        ⟨found, full ▸ List.not_mem_nil⟩
      obtain ⟨changed, still, _, _, same⟩ :=
        objects_change_by_own_methods lendingTanks stack .unlimited ⟨1, 0⟩ object holds
      have apart : ∀ visit ∈ (Host.after lendingTanks).engine.visits stack .unlimited,
          visit.this ≠ ⟨1, 0⟩ := by
        intro visit among here
        have listed := List.mem_map_of_mem (f := Visit.this) among
        rw [shown, here] at listed
        simp at listed
      rw [same apart] at still
      exact ⟨stack, List.mem_of_head? first, shown, object, holds, still⟩

end ScriptEngine
