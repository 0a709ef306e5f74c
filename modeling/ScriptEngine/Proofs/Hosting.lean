import ScriptEngine.Proofs.Loading
import Mathlib.Data.List.Induction
/-! Everything a host can do to an engine and to the stacks it made, one operation after the other.
What is refused changes nothing. A stack is known by its place; copies of stacks are stacks of
their own, so that one may be gone on with from a state that another has left. -/

namespace ScriptEngine

mutual

/-- A frame tree as a snapshot keeps it: no variable is bound to anything. -/
def Frame.unbound : Frame → Frame
  | ⟨state, vars, temps, children⟩ =>
      ⟨state, vars.map fun var => var.bind .unbound, temps, Frame.unboundIn children⟩

def Frame.unboundIn : List (Nat × Frame) → List (Nat × Frame)
  | [] => []
  | (slot, child) :: rest => (slot, child.unbound) :: Frame.unboundIn rest

end

def FrameState.isLoaded (code : Code) : FrameState → Bool
  | .call held => (code.programs.function? held.program held.function).isSome
  | .fresh | .block _ | .wait _ | .eval => true

mutual

def Frame.isLoaded (code : Code) : Frame → Bool
  | ⟨state, _, _, children⟩ => state.isLoaded code && Frame.areLoaded code children

def Frame.areLoaded (code : Code) : List (Nat × Frame) → Bool
  | [] => true
  | (_, child) :: rest => child.isLoaded code && Frame.areLoaded code rest

end

mutual

def Frame.programs : Frame → List ProgramId
  | ⟨state, _, _, children⟩ =>
      match state with
      | .call call => call.program :: Frame.programsIn children
      | .fresh | .block _ | .wait _ | .eval => Frame.programsIn children

def Frame.programsIn : List (Nat × Frame) → List ProgramId
  | [] => []
  | (_, child) :: rest => child.programs ++ Frame.programsIn rest

end

def Stack.unbound (stack : Stack) : Stack := { stack with root := stack.root.unbound }

inductive Operation where
  | register (decl : ClassDecl)
  | compile (name source : String)
  | unload (program : ProgramId)
  | set (setting : Setting) (value : Nat)
  | newInstance (className : String)
  | bindInstance (program : ProgramId) (handle : Handle)
  /-- Free objects, write members, or adopt another heap. -/
  | changeHeap (change : Heap → Heap)
  | newStack (program : ProgramId)
  | call (place : Nat) (name : String) (args : Variables) (gate : Gate)
  | callMethod (place : Nat) (handle : Handle) (name : String) (args : Variables) (gate : Gate)
  | resume (place : Nat) (gate : Gate)
  | abort (place : Nat)
  | copy (place : Nat)
  /-- Load what was saved of a stack and restore it. -/
  | reload (place : Nat)

/-- Whether an operation uses every stack linearly and loads none. -/
def Operation.isLinear : Operation → Bool
  | .copy _ | .reload _ => false
  | _ => true

def Operation.isRequest : Operation → Bool
  | .call .. | .callMethod .. | .resume .. => true
  | .register _ | .compile .. | .unload _ | .set .. | .newInstance _ | .bindInstance ..
  | .changeHeap _ | .newStack _ | .abort _ | .copy _ | .reload _ => false

structure Host where
  engine : Engine := {}
  executions : List Stack := []

namespace Host

def withEngine (host : Host) : Except EngineError Engine → Host
  | .ok engine => { host with engine }
  | .error _ => host

def drive (host : Host) (place : Nat) (run : Stack → Driven) : Host :=
  match host.executions[place]? with
  | some stack => ⟨(run stack).engine, host.executions.set place (run stack).stack⟩
  | none => host

def step (host : Host) : Operation → Host
  | .register decl => host.withEngine (host.engine.register decl)
  | .compile name source => { host with engine := (host.engine.compile name source).2 }
  | .unload program => host.withEngine (host.engine.unload program)
  | .set setting value => { host with engine := host.engine.set setting value }
  | .newInstance className =>
      host.withEngine ((host.engine.newInstance className).map Prod.snd)
  | .bindInstance program handle => host.withEngine (host.engine.bindInstance program handle)
  | .changeHeap change =>
      { host with engine := host.engine.withHeap (change host.engine.world.heap) }
  | .newStack program =>
      ⟨(host.engine.newStack program).2, host.executions ++ [(host.engine.newStack program).1]⟩
  | .call place name args gate =>
      host.drive place fun stack => host.engine.call stack name args gate
  | .callMethod place handle name args gate =>
      host.drive place fun stack => host.engine.callMethod stack handle name args gate
  | .resume place gate => host.drive place fun stack => host.engine.resume stack gate
  | .abort place =>
      match host.executions[place]? with
      | some stack =>
          ⟨(host.engine.abort stack).1, host.executions.set place (host.engine.abort stack).2⟩
      | none => host
  | .copy place =>
      match host.executions[place]? with
      | some stack => { host with executions := host.executions ++ [stack] }
      | none => host
  | .reload place =>
      match host.executions[place]? with
      | some stack =>
          match host.engine.restore stack.unbound with
          | .ok (engine, stack) => ⟨engine, host.executions.set place stack⟩
          | .error _ => host
      | none => host

def after (operations : List Operation) : Host := operations.foldl step {}

theorem after_concat (operations : List Operation) (operation : Operation) :
    after (operations ++ [operation]) = (after operations).step operation := by
  simp only [after, List.foldl_append, List.foldl_cons, List.foldl_nil]

def restoring (host : Host) (stack : Stack) : Host :=
  match host.engine.restore stack.unbound with
  | .ok (engine, restored) => ⟨engine, host.executions ++ [restored]⟩
  | .error _ => host

/-- A stack of another host can be restored here: the programs of its calls are loaded alike, and the
classes are registered as there. -/
structure Accepts (host saver : Host) (stack : Stack) : Prop where
  loaded : stack.root.isLoaded host.engine.code = true
  same : ∀ program ∈ stack.root.programs,
    host.engine.code.programs.get? program = saver.engine.code.programs.get? program
  classes : saver.engine.code.classes.Within host.engine.code.classes

/-- The hosts that any operations lead to. A stack that was saved on one of them may be restored on
another one, or later on the same one, and a stack may be dropped. -/
inductive Reachable : Host → Prop
  | fresh : Reachable {}
  | step {host : Host} (operation : Operation) : host.Reachable → Reachable (host.step operation)
  | restored {saver host : Host} {stack : Stack} : saver.Reachable → host.Reachable →
      stack ∈ saver.executions → host.Accepts saver stack → Reachable (host.restoring stack)
  | dropped {host : Host} (place : Nat) : host.Reachable →
      Reachable { host with executions := host.executions.eraseIdx place }

theorem after_reachable (operations : List Operation) : (after operations).Reachable := by
  induction operations using List.reverseRecOn with
  | nil => exact .fresh
  | append_singleton operations operation ih =>
      rw [after_concat]
      exact .step operation ih

end Host

def EntryCall.invocation (entry : EntryCall) (function : Function) (program : ProgramId) :
    Invocation :=
  ⟨function, entry.receiver.map Receiver.handle, entry.args, none, program⟩

namespace Engine

def ran (engine : Engine) (stack : Stack) (entry : EntryCall) (kept : Option FunctionId) :
    Progress Value × Machine → Driven
  | (.done value, machine) =>
      ⟨.ok (.completed value), { engine with world := machine.world }, stack.finish, machine.gate⟩
  | (.failed error, machine) =>
      ⟨.ok (.failed error), { engine with world := machine.world },
        { stack with lastError := some error }.finish, machine.gate⟩
  | (.suspended root, machine) =>
      ⟨.ok .suspended, { engine with world := machine.world },
        { stack with entry := some { entry with kept }, root }, machine.gate⟩

/-- What driving comes to: nothing is done, or the call is over because its function is not there,
or its function runs. -/
inductive Driving (engine : Engine) (stack : Stack) (gate : Gate) : Driven → Prop
  | refused (error : EngineError) : Driving engine stack gate ⟨.error error, engine, stack, gate⟩
  | unentered {entry : EntryCall} (outcome : Outcome) (lastError : Option RuntimeError) :
      (∀ function kept, entryCallee engine.code stack entry ≠ .found function kept) →
      Driving engine stack gate ⟨.ok outcome, engine, { stack with lastError }.finish, gate⟩
  | entered {entry : EntryCall} {function : Function} {kept : Option FunctionId} :
      entryCallee engine.code stack entry = .found function kept →
      Driving engine stack gate (engine.ran stack entry kept
        (Invocation.run engine.code stack.context engine.code.maxCallDepth
          (entry.invocation function stack.program) stack.root ⟨engine.world, gate⟩))

theorem drive_driving (engine : Engine) (stack : Stack) (gate : Gate) :
    engine.Driving stack gate (engine.drive stack gate) := by
  unfold drive
  split
  · exact .refused _
  · rename_i entry _
    split
    · exact .refused _
    · dsimp only
      split
      · rename_i gone
        exact .unentered _ (some _) fun _ _ found => nomatch gone.symm.trans found
      · rename_i missing
        exact .unentered _ stack.lastError fun _ _ found => nomatch missing.symm.trans found
      · rename_i found
        have entered : engine.Driving stack gate _ := .entered found
        unfold EntryCall.invocation at entered
        generalize Invocation.run _ _ _ _ _ _ = ended at entered ⊢
        obtain ⟨progress, machine⟩ := ended
        cases progress <;> exact entered

theorem drive_entered {engine : Engine} {stack : Stack} {entry : EntryCall} {function : Function}
    {kept : Option FunctionId} (started : stack.entry = some entry)
    (loaded : (engine.code.programs.get? stack.program).isSome = true)
    (found : entryCallee engine.code stack entry = .found function kept) (gate : Gate) :
    engine.drive stack gate = engine.ran stack entry kept
      (Invocation.run engine.code stack.context engine.code.maxCallDepth
        (entry.invocation function stack.program) stack.root ⟨engine.world, gate⟩) := by
  have there : ¬ (engine.code.programs.get? stack.program).isNone = true := by
    simpa using Option.isSome_iff_ne_none.mp loaded
  unfold drive EntryCall.invocation
  simp only [started, if_neg there, found]
  generalize Invocation.run _ _ _ _ _ _ = ended
  obtain ⟨progress, machine⟩ := ended
  cases progress <;> rfl

theorem entryCallee_eq (code : Code) (stack : Stack) (entry : EntryCall) :
    ∃ resolved, entryCallee code stack entry =
        Evaluation.callee code stack.root entry.kept resolved ∧
      (code.Consistent → ∀ function kept, resolved = (.ok function, kept) →
        code.Owns function) := by
  refine ⟨_, rfl, fun consistent function kept resolved => ?_⟩
  split at resolved
  · exact consistent.resolveCall resolved
  · exact consistent.resolveMethod resolved

inductive Drives (engine : Engine) (stack : Stack) (gate : Gate) : Driven → Prop
  | refused (error : EngineError) : Drives engine stack gate ⟨.error error, engine, stack, gate⟩
  | started (entry : EntryCall) : stack.isActive = false → Drives engine stack gate
      (engine.drive { stack with entry := some entry, root := {}, lastError := none } gate)
  | resumed : Drives engine stack gate (engine.drive stack gate)

section

variable (engine : Engine) (stack : Stack) (gate : Gate)

theorem start_drives (entry : EntryCall) :
    engine.Drives stack gate (engine.start stack entry gate) := by
  unfold start
  split
  · exact .refused _
  · rename_i idle
    exact .started entry (by simpa using idle)

theorem callMethod_drives (handle : Handle) (name : String) (args : Variables) :
    engine.Drives stack gate (engine.callMethod stack handle name args gate) := by
  unfold callMethod
  split
  · exact .refused _
  · exact start_drives ..

theorem Driving.keeps {engine : Engine} {stack : Stack} {gate : Gate} {driven : Driven}
    (driving : engine.Driving stack gate driven) :
    driven.engine = { engine with world := driven.engine.world } := by
  cases driving with
  | refused | unentered => rfl
  | entered =>
      generalize Invocation.run _ _ _ _ _ _ = ended
      obtain ⟨progress, machine⟩ := ended
      cases progress <;> rfl

theorem Drives.keeps {engine : Engine} {stack : Stack} {gate : Gate} {driven : Driven}
    (drives : engine.Drives stack gate driven) :
    driven.engine = { engine with world := driven.engine.world } := by
  cases drives with
  | refused => rfl
  | started => exact (drive_driving ..).keeps
  | resumed => exact (drive_driving ..).keeps

end

/-- An idle stack is not restored, and its engine stays. Restoring any other changes its frames and
the guards, and sets its context aside. -/
theorem restore_cases {engine after : Engine} {stack restored : Stack}
    (done : engine.restore stack = .ok (after, restored)) :
    (stack.isActive = false ∧ after = engine ∧ restored = stack) ∨
    (stack.isActive = true ∧ (engine.code.programs.get? stack.program).isSome = true ∧
      let rebuilt :=
        Restoration.restore engine.code stack.context stack.root engine.world.guards
      after = { engine with
        ids := engine.ids.reserveContext stack.context
        world := { engine.world with guards := rebuilt.2 } } ∧
      restored = { stack with root := rebuilt.1 }) := by
  unfold restore at done
  split at done
  · rename_i idle
    cases done
    exact Or.inl ⟨by simpa using idle, rfl, rfl⟩
  · rename_i active
    split at done
    · cases done
    · rename_i loaded
      cases done
      exact Or.inr ⟨by simpa using active, by simpa [Option.isSome_iff_ne_none] using loaded, rfl,
        rfl⟩

inductive Turn (engine : Engine) : Engine → Prop
  | kept {after : Engine} : after.code.programs = engine.code.programs →
      after.code.published = engine.code.published →
      engine.code.classes.Within after.code.classes →
      after.ids.lastFunction = engine.ids.lastFunction →
      after.ids.lastProgram = engine.ids.lastProgram → Turn engine after
  | compiled (name source : String) : Turn engine (engine.compile name source).2
  | unloaded {program : ProgramId} {after : Engine} : engine.unload program = .ok after →
      Turn engine after

theorem Turn.of_world {engine after : Engine} (kept : after = { engine with world := after.world }) :
    engine.Turn after := by
  rw [kept]
  exact .kept rfl rfl (fun _ _ found => found) rfl rfl

theorem Turn.knows {engine after : Engine} {known : List Function} (turn : engine.Turn after)
    (knows : engine.Knows known) : ∃ more, after.Knows (known ++ more) := by
  cases turn with
  | kept programs published classes functions numbers =>
      refine ⟨[], ?_⟩
      rw [List.append_nil]
      exact knows.congr programs (congrArg _ published) classes (Nat.le_of_eq functions.symm)
        (Nat.le_of_eq numbers.symm)
  | compiled name source => exact knows.compile name source
  | unloaded unloaded =>
      refine ⟨[], ?_⟩
      rw [List.append_nil]
      exact knows.unload unloaded

end Engine

namespace Host

theorem drive_turn {host : Host} {gate : Gate} {run : Stack → Driven}
    (drives : ∀ stack, host.engine.Drives stack gate (run stack)) (place : Nat) :
    host.engine.Turn (host.drive place run).engine := by
  unfold drive
  split
  · exact .of_world (drives _).keeps
  · exact .of_world rfl

theorem step_turn (host : Host) (operation : Operation) :
    host.engine.Turn (host.step operation).engine := by
  have same : host.engine.Turn host.engine := .of_world rfl
  cases operation with
  | register decl =>
      simp only [step, Engine.register]
      cases registered : host.engine.code.classes.register decl with
      | error error => exact same
      | ok classes => exact .kept rfl rfl (ClassTable.register_within registered) rfl rfl
  | compile name source => exact .compiled name source
  | unload program =>
      simp only [step]
      cases unloaded : host.engine.unload program with
      | error error => exact same
      | ok engine => exact .unloaded unloaded
  | set setting value =>
      cases setting with
      | maxCallDepth | resolvePublicCalls => exact .kept rfl rfl (fun _ _ found => found) rfl rfl
      | maxLockWaiters => exact .of_world rfl
  | newInstance className =>
      simp only [step, Engine.newInstance]
      cases host.engine.code.classes.members? className with
      | none => exact same
      | some fields => exact .of_world rfl
  | bindInstance program handle =>
      simp only [step, Engine.bindInstance]
      split
      · exact same
      · split
        · exact same
        · exact .of_world rfl
  | changeHeap change => exact .of_world rfl
  | newStack program => exact .kept rfl rfl (fun _ _ found => found) rfl rfl
  | call place name args gate => exact drive_turn (fun stack => Engine.start_drives ..) place
  | callMethod place handle name args gate =>
      exact drive_turn (fun stack => Engine.callMethod_drives ..) place
  | resume place gate => exact drive_turn (fun _ => .resumed) place
  | abort place =>
      simp only [step]
      split
      · exact .of_world rfl
      · exact same
  | copy place =>
      simp only [step]
      split <;> exact same
  | reload place =>
      simp only [step]
      split
      · rename_i stack _
        simp only [Engine.restore]
        by_cases idle : (!stack.unbound.isActive) = true
        · rw [if_pos idle]
          exact same
        · by_cases gone : (host.engine.code.programs.get? stack.unbound.program).isNone = true
          · rw [if_neg idle, if_pos gone]
            exact same
          · rw [if_neg idle, if_neg gone]
            exact .kept rfl rfl (fun _ _ found => found) rfl rfl
      · exact same

/-- What holds of new stacks, and stays when a call is driven, given up or restored, holds of all stacks
behind an operation if it held before. -/
theorem step_stacks {host : Host} {holds : Stack → Prop}
    (held : ∀ stack ∈ host.executions, holds stack)
    (fresh : ∀ context program, holds { context, program })
    {operation : Operation}
    (driven : ∀ {stack gate driven}, operation.isRequest = true → holds stack →
      host.engine.Drives stack gate driven → holds driven.stack)
    (finished : ∀ stack : Stack, holds stack.finish)
    (restored : ∀ {stack engine restored}, holds stack →
      host.engine.restore stack.unbound = .ok (engine, restored) → holds restored) :
    ∀ stack ∈ (host.step operation).executions, holds stack := by
  -- An operation leaves the stacks alone, adds one, or puts one in the place of another.
  have withEngine : ∀ result, (host.withEngine result).executions = host.executions := by
    intro result
    cases result <;> rfl
  have added : ∀ {new}, holds new → ∀ stack ∈ host.executions ++ [new], holds stack := by
    intro new joins stack among
    rcases List.mem_append.mp among with kept | new
    · exact held stack kept
    · rw [List.mem_singleton.mp new]
      exact joins
  have changed : ∀ {place new}, holds new → ∀ stack ∈ host.executions.set place new, holds stack := by
    intro place new joins stack among
    rcases List.mem_or_eq_of_mem_set among with kept | rfl
    · exact held stack kept
    · exact joins
  have drives : ∀ {gate : Gate} {run : Stack → Driven} (place : Nat),
      operation.isRequest = true → (∀ stack, host.engine.Drives stack gate (run stack)) →
        ∀ stack ∈ (host.drive place run).executions, holds stack := by
    intro gate run place requested drives
    unfold drive
    split
    · rename_i stack found
      exact changed (driven requested (held stack (List.mem_of_getElem? found)) (drives stack))
    · exact held
  cases operation with
  | register | unload | newInstance | bindInstance =>
      simp only [step, withEngine]
      exact held
  | compile | set | changeHeap => exact held
  | newStack program => exact added (fresh ..)
  | call place name args gate => exact drives place rfl fun stack => Engine.start_drives ..
  | callMethod place handle name args gate =>
      exact drives place rfl fun stack => Engine.callMethod_drives ..
  | resume place gate => exact drives place rfl fun _ => .resumed
  | abort place =>
      simp only [step]
      split
      · exact changed (finished _)
      · exact held
  | copy place =>
      simp only [step]
      split
      · rename_i copied found
        exact added (held copied (List.mem_of_getElem? found))
      · exact held
  | reload place =>
      simp only [step]
      split
      · rename_i saved found
        split
        · rename_i engine stack done
          exact changed (restored (held saved (List.mem_of_getElem? found)) done)
        · exact held
      · exact held

/-- Whatever the host does, what is loaded are functions the engine compiled. -/
theorem after_knows (operations : List Operation) :
    ∃ known, (after operations).engine.Knows known := by
  induction operations using List.reverseRecOn with
  | nil => exact ⟨[], Engine.Knows.fresh⟩
  | append_singleton operations operation ih =>
      obtain ⟨known, knows⟩ := ih
      obtain ⟨more, knows⟩ := (step_turn (after operations) operation).knows knows
      exact ⟨known ++ more, by
        rw [after_concat]
        exact knows⟩

end Host

end ScriptEngine
