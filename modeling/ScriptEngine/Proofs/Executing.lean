import ScriptEngine.Proofs.Ending
import ScriptEngine.Proofs.ErrorSpans
import ScriptEngine.Proofs.Refusals
/-! Statements that are executed. They are listed along the way that running takes, those of a nested
call where the call is made. All of them are statements of functions that are loaded. -/

namespace ScriptEngine

/-- A statement that a call of a function starts or goes on with. -/
structure Execution where
  function : Function
  stmt : Stmt

def Watcher.silent (α : Type) : Watcher α := ⟨fun _ _ _ _ _ => [], fun _ _ _ _ => []⟩

namespace Evaluation

section

variable (activation : Activation) (function : Function)
  (nested : Invocation → Frame → Machine → List Execution)

mutual

def stmtTrace : Stmt → Frame → RunState → List Execution
  | .block span stmts, frame, state =>
      ⟨function, .block span stmts⟩ ::
        stmtsTrace 0 stmts { frame with state := .block frame.nextStatement } state
  | stmt, frame, state =>
      ⟨function, stmt⟩ :: stmtNotes (.silent Execution) activation function nested stmt frame state

def stmtsTrace (place : Nat) : List Stmt → Frame → RunState → List Execution
  | [], _, _ => []
  | stmt :: rest, frame, state =>
      if place < frame.nextStatement then stmtsTrace (place + 1) rest frame state
      else stmtTrace stmt (frame.child place) state ++
        match execStmt activation stmt (frame.child place) state with
        | (.done .next, state) =>
            let passed := { frame.withoutChild place with state := .block (place + 1) }
            stmtsTrace (place + 1) rest passed state
        | (.done (.return _), _) | (.suspended _, _) | (.failed _, _) => []

end

end

end Evaluation

def Invocation.trace (code : Code) (context : ContextId) :
    Nat → Invocation → Frame → Machine → List Execution
  | 0, _, _, _ => []
  | depth + 1, invocation, frame, machine =>
      let activation : Activation :=
        ⟨code, context, invocation.function.program, run code context depth⟩
      let (call, frame) := entered invocation frame
      match Metered.advance code context invocation call frame.vars frame machine with
      | .stopped _ => []
      | .ready _ vars machine =>
          let (allowed, gate) := machine.gate.ask
          if !allowed then []
          else
            let body := frame.child 0
            Evaluation.stmtsTrace activation invocation.function (trace code context depth) 0
              invocation.function.body.stmts { body with state := .block body.nextStatement }
              ⟨vars, { machine with gate }⟩

/-- The statements that are executed when the call on a stack is driven. -/
def Engine.executed (engine : Engine) (stack : Stack) (gate : Gate) : List Execution :=
  match stack.entry with
  | none => []
  | some entry =>
      if (engine.code.programs.get? stack.program).isNone then []
      else match entryCallee engine.code stack entry with
        | .found function _ =>
            Invocation.trace engine.code stack.context engine.code.maxCallDepth
              (entry.invocation function stack.program) stack.root ⟨engine.world, gate⟩
        | .gone | .notFound _ => []

structure Ride where
  place : Nat
  stack : Stack
  gate : Gate

namespace Host

def rides (host : Host) : Operation → Option Ride
  | .call place name args gate => do
      let stack ← host.executions[place]?
      if stack.isActive then none else some ⟨place, stack.begun { name, args }, gate⟩
  | .callMethod place handle name args gate => do
      let stack ← host.executions[place]?
      let object ← host.engine.world.heap.get? handle
      if stack.isActive then none
      else some ⟨place, stack.begun
        { name, args, receiver := some ⟨handle, object.className⟩ }, gate⟩
  | .resume place gate => host.executions[place]?.map fun stack => ⟨place, stack, gate⟩
  | .register _ | .compile .. | .unload _ | .set .. | .newInstance _ | .bindInstance ..
  | .changeHeap _ | .newStack _ | .abort _ | .copy _ | .reload _ => none

def executed (host : Host) (operation : Operation) : List Execution :=
  match host.rides operation with
  | some ride => host.engine.executed ride.stack ride.gate
  | none => []

variable {host : Host} {operation : Operation} {ride : Ride}

theorem rides_place (rides : host.rides operation = some ride) :
    ∃ stack, host.executions[ride.place]? = some stack ∧
      (ride.stack = stack ∨ stack.isActive = false ∧ ride.stack.root = {}) := by
  cases operation with
  | call place name args gate =>
      obtain ⟨stack, here, idle⟩ := Option.bind_eq_some_iff.mp rides
      split at idle
      · cases idle
      · rename_i inactive
        cases idle
        exact ⟨stack, here, Or.inr ⟨by simpa using inactive, rfl⟩⟩
  | callMethod place handle name args gate =>
      obtain ⟨stack, here, live⟩ := Option.bind_eq_some_iff.mp rides
      obtain ⟨object, _, idle⟩ := Option.bind_eq_some_iff.mp live
      split at idle
      · cases idle
      · rename_i inactive
        cases idle
        exact ⟨stack, here, Or.inr ⟨by simpa using inactive, rfl⟩⟩
  | resume place gate =>
      obtain ⟨stack, here, same⟩ := Option.map_eq_some_iff.mp rides
      cases same
      exact ⟨stack, here, Or.inl rfl⟩
  | register | compile | unload | set | newInstance | bindInstance | changeHeap | newStack | abort
  | copy | reload => cases rides

theorem step_of_rides (rides : host.rides operation = some ride) :
    host.step operation = ⟨(host.engine.drive ride.stack ride.gate).engine,
      host.executions.set ride.place (host.engine.drive ride.stack ride.gate).stack⟩ := by
  cases operation with
  | call place name args gate =>
      obtain ⟨stack, here, idle⟩ := Option.bind_eq_some_iff.mp rides
      split at idle
      · cases idle
      · rename_i inactive
        cases idle
        simp only [step, drive, here, Engine.call, Engine.start, if_neg inactive]
        rfl
  | callMethod place handle name args gate =>
      obtain ⟨stack, here, live⟩ := Option.bind_eq_some_iff.mp rides
      obtain ⟨object, found, idle⟩ := Option.bind_eq_some_iff.mp live
      split at idle
      · cases idle
      · rename_i inactive
        cases idle
        simp only [step, drive, here, Engine.callMethod, found, Engine.start, if_neg inactive]
        rfl
  | resume place gate =>
      obtain ⟨stack, here, same⟩ := Option.map_eq_some_iff.mp rides
      cases same
      simp only [step, drive, here]
      rfl
  | register | compile | unload | set | newInstance | bindInstance | changeHeap | newStack | abort
  | copy | reload => cases rides

theorem step_refused (requested : operation.isRequest = true) (refused : host.rides operation = none) :
    host.step operation = host := by
  have unchanged : ∀ {place : Nat} {stack : Stack}, host.executions[place]? = some stack →
      (⟨host.engine, host.executions.set place stack⟩ : Host) = host := by
    intro place stack here
    obtain ⟨within, same⟩ := List.getElem?_eq_some_iff.mp here
    rw [← same, List.set_getElem_self]
  cases operation with
  | call place name args gate =>
      simp only [step, drive]
      cases here : host.executions[place]? with
      | none => rfl
      | some stack =>
          have active : stack.isActive = true := by simpa [rides, here] using refused
          simp only [Engine.call, Engine.start, if_pos active]
          exact unchanged here
  | callMethod place handle name args gate =>
      simp only [step, drive]
      cases here : host.executions[place]? with
      | none => rfl
      | some stack =>
          cases found : host.engine.world.heap.get? handle with
          | none =>
              simp only [Engine.callMethod, found]
              exact unchanged here
          | some object =>
              have active : stack.isActive = true := by simpa [rides, here, found] using refused
              simp only [Engine.callMethod, found, Engine.start, if_pos active]
              exact unchanged here
  | resume place gate =>
      simp only [step, drive]
      cases here : host.executions[place]? with
      | none => rfl
      | some stack => simp [rides, here] at refused
  | register | compile | unload | set | newInstance | bindInstance | changeHeap | newStack | abort
  | copy | reload => cases requested

end Host

structure Code.OwnsAll (code : Code) (trace : List Execution) : Prop where
  each : ∀ execution ∈ trace, code.Owns execution.function

namespace Code.OwnsAll

variable {code : Code} {first second : List Execution}

theorem nil : code.OwnsAll [] := ⟨List.forall_mem_nil _⟩

theorem cons {execution : Execution} (owns : code.Owns execution.function)
    (others : code.OwnsAll first) : code.OwnsAll (execution :: first) :=
  ⟨List.forall_mem_cons.mpr ⟨owns, others.each⟩⟩

theorem append (one : code.OwnsAll first) (two : code.OwnsAll second) :
    code.OwnsAll (first ++ second) := by
  constructor
  intro execution among
  rcases List.mem_append.mp among with earlier | later
  · exact one.each execution earlier
  · exact two.each execution later

end Code.OwnsAll

structure Traces (activation : Activation) (nested : Invocation → Frame → Machine → List Execution) :
    Prop where
  consistent : activation.code.Consistent
  nested : ∀ invocation frame machine, activation.code.Owns invocation.function →
    activation.code.OwnsAll (nested invocation frame machine)

section

variable {activation : Activation} {function : Function}
  {nested : Invocation → Frame → Machine → List Execution} {vars : Variables}

theorem siteNotes_owned (traces : Traces activation nested) (site : CallSite) (types : List DataType)
    (frame : Frame) (machine : Machine) :
    activation.code.OwnsAll (Evaluation.siteNotes activation nested site types frame machine) := by
  unfold Evaluation.siteNotes
  split
  · rename_i chosen
    apply traces.nested
    exact Evaluation.choose_owns traces.consistent chosen
  · exact .nil
  · exact .nil
  · exact .nil

theorem operandNotes_owned {code : Code} {notes : Frame → Machine → List Execution}
    (owned : ∀ frame machine, code.OwnsAll (notes frame machine)) (slot : Nat) (frame : Frame)
    (machine : Machine) : code.OwnsAll (Evaluation.operandNotes slot notes frame machine) := by
  unfold Evaluation.operandNotes
  split
  · exact .nil
  · exact owned ..

mutual

theorem exprNotes_owned (traces : Traces activation nested) : ∀ expr frame machine,
    activation.code.OwnsAll
      (Evaluation.exprNotes (.silent Execution) activation function nested vars expr frame machine)
  | .literal .., _, _ | .var .., _, _ => by
      rw [Evaluation.exprNotes]
      exact .nil
  | .negate _ _ inner, frame, machine => by
      rw [Evaluation.exprNotes]
      exact (operandNotes_owned (exprNotes_owned traces inner) ..).append .nil
  | .binary _ _ _ left right, frame, machine => by
      rw [Evaluation.exprNotes]
      refine .append (.append (operandNotes_owned (exprNotes_owned traces left) ..) ?_) .nil
      split
      · exact operandNotes_owned (exprNotes_owned traces right) ..
      · exact .nil
      · exact .nil
  | .call _ _ site operands, frame, machine => by
      rw [Evaluation.exprNotes]
      refine .append (.append (operandsNotes_owned traces 0 operands ..) ?_) .nil
      split
      · exact siteNotes_owned traces ..
      · exact .nil
      · exact .nil

theorem operandsNotes_owned (traces : Traces activation nested) (slot : Nat) :
    ∀ operands frame machine, activation.code.OwnsAll (Evaluation.operandsNotes (.silent Execution)
      activation function nested vars slot operands frame machine)
  | [], _, _ => by
      rw [Evaluation.operandsNotes]
      exact .nil
  | first :: rest, frame, machine => by
      rw [Evaluation.operandsNotes]
      refine .append (operandNotes_owned (exprNotes_owned traces first) ..) ?_
      split
      · exact operandsNotes_owned traces (slot + 1) rest ..
      · exact .nil
      · exact .nil

end

theorem stmtNotes_owned (traces : Traces activation nested) {stmt : Stmt}
    (simple : ∀ span stmts, stmt ≠ .block span stmts) (frame : Frame) (state : RunState) :
    activation.code.OwnsAll
      (Evaluation.stmtNotes (.silent Execution) activation function nested stmt frame state) := by
  have valued : ∀ expr, activation.code.OwnsAll (Evaluation.exprNotes (.silent Execution) activation
      function nested state.vars expr frame state.machine) :=
    fun expr => exprNotes_owned traces expr frame state.machine
  cases stmt with
  | block span stmts => exact absurd rfl (simple span stmts)
  | «return» span value | declare span id name type value =>
      cases value with
      | none => exact .nil
      | some expr => exact valued expr
  | expr value => exact valued value
  | wait span count =>
      rw [Evaluation.stmtNotes]
      split
      · exact .nil
      · exact valued count
  | assign span target expr =>
      rw [Evaluation.stmtNotes]
      refine .append (valued expr) ?_
      split <;> exact .nil

mutual

theorem stmtTrace_owned (traces : Traces activation nested)
    (owns : activation.code.Owns function) : ∀ stmt frame state,
    activation.code.OwnsAll (Evaluation.stmtTrace activation function nested stmt frame state)
  | .block span stmts, frame, state => by
      rw [Evaluation.stmtTrace]
      exact .cons owns (stmtsTrace_owned traces owns 0 stmts ..)
  | .return .., frame, state | .wait .., frame, state | .declare .., frame, state
  | .assign .., frame, state | .expr _, frame, state => by
      rw [Evaluation.stmtTrace]
      · exact .cons owns (stmtNotes_owned traces (by simp) ..)
      · simp

theorem stmtsTrace_owned (traces : Traces activation nested)
    (owns : activation.code.Owns function) (place : Nat) : ∀ stmts frame state,
    activation.code.OwnsAll
      (Evaluation.stmtsTrace activation function nested place stmts frame state)
  | [], _, _ => by
      rw [Evaluation.stmtsTrace]
      exact .nil
  | stmt :: rest, frame, state => by
      rw [Evaluation.stmtsTrace]
      split
      · exact stmtsTrace_owned traces owns (place + 1) rest ..
      · refine .append (stmtTrace_owned traces owns stmt ..) ?_
        split
        · exact stmtsTrace_owned traces owns (place + 1) rest ..
        · exact .nil
        · exact .nil
        · exact .nil

end

end

theorem Invocation.trace_owned {code : Code} (consistent : code.Consistent) (context : ContextId)
    (depth : Nat) (invocation : Invocation) (frame : Frame) (machine : Machine)
    (owns : code.Owns invocation.function) :
    code.OwnsAll (trace code context depth invocation frame machine) := by
  induction depth generalizing invocation frame machine with
  | zero => exact .nil
  | succ depth ih =>
      let activation : Activation :=
        ⟨code, context, invocation.function.program, run code context depth⟩
      have traces : Traces activation (trace code context depth) := ⟨consistent, ih⟩
      rw [trace]
      dsimp only
      split
      · exact .nil
      · split
        · exact .nil
        · exact stmtsTrace_owned traces owns ..

theorem Engine.entryCallee_owns {engine : Engine} (consistent : engine.code.Consistent)
    {stack : Stack} {entry : EntryCall} {function : Function} {kept : Option FunctionId}
    (found : entryCallee engine.code stack entry = .found function kept) :
    engine.code.Owns function := by
  obtain ⟨resolved, chosen, owned⟩ := entryCallee_eq engine.code stack entry
  rw [chosen] at found
  rcases Evaluation.callee_chosen found with ⟨call, _, loaded⟩ | ⟨_, rfl⟩
  · exact consistent.owns loaded
  · exact owned consistent _ _ rfl

theorem Engine.executed_owned {engine : Engine} (consistent : engine.code.Consistent)
    (stack : Stack) (gate : Gate) : engine.code.OwnsAll (engine.executed stack gate) := by
  unfold executed
  split
  · exact .nil
  · split
    · exact .nil
    · split
      · rename_i found
        exact Invocation.trace_owned consistent _ _ _ _ _ (entryCallee_owns consistent found)
      · exact .nil
      · exact .nil

theorem Host.executed_owned {host : Host} (consistent : host.engine.code.Consistent)
    (operation : Operation) : host.engine.code.OwnsAll (host.executed operation) := by
  unfold executed
  split
  · exact Engine.executed_owned consistent ..
  · exact .nil

end ScriptEngine
