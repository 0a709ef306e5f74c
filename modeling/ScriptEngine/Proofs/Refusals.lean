import ScriptEngine.Proofs.Hosting
/-! Requests that are refused. Driving a call changes nothing unless the call can be driven, and so
does restoring a stack. But a call is put on its stack before it is driven, so a stack whose program is
not loaded is left with a call that was refused. -/

namespace ScriptEngine

/-- What a host asks for on one of its stacks. -/
inductive StackRequest where
  | call (name : String) (args : Variables)
  | callMethod (handle : Handle) (name : String) (args : Variables)
  | resume
  | restore

/-- What a host is left with, and the error if its request was refused. -/
structure Answer where
  error : Option EngineError
  engine : Engine
  stack : Stack
  gate : Gate

def Driven.answer (driven : Driven) : Answer :=
  { error := match driven.outcome with
      | .ok _ => none
      | .error error => some error
    engine := driven.engine
    stack := driven.stack
    gate := driven.gate }

def Engine.answer (engine : Engine) (stack : Stack) (gate : Gate) : StackRequest → Answer
  | .call name args => (engine.call stack name args gate).answer
  | .callMethod handle name args => (engine.callMethod stack handle name args gate).answer
  | .resume => (engine.resume stack gate).answer
  | .restore =>
      match engine.restore stack with
      | .ok (engine, stack) => ⟨none, engine, stack, gate⟩
      | .error error => ⟨some error, engine, stack, gate⟩

/-- A stack with a call on it that has not run. -/
def Stack.begun (stack : Stack) (entry : EntryCall) : Stack :=
  { stack with entry := some entry, root := {}, lastError := none }

/-- A request to call something from an idle stack whose program is not loaded. -/
def Engine.Strands (engine : Engine) (stack : Stack) (request : StackRequest) : Prop :=
  stack.isActive = false ∧ engine.code.programs.get? stack.program = none ∧
    match request with
    | .call _ _ => True
    | .callMethod handle _ _ => (engine.world.heap.get? handle).isSome = true
    | .resume | .restore => False

/-- The stack takes no call, and does not go on with its own while its program is not loaded. -/
structure Stack.Stuck (stack : Stack) : Prop where
  call : ∀ (engine : Engine) name args gate,
    engine.call stack name args gate = ⟨.error .callInProgress, engine, stack, gate⟩
  callMethod : ∀ (engine : Engine) handle name args gate,
    ∃ error, engine.callMethod stack handle name args gate = ⟨.error error, engine, stack, gate⟩
  resume : ∀ (engine : Engine) gate, engine.code.programs.get? stack.program = none →
    engine.resume stack gate = ⟨.error (.unknownProgram stack.program), engine, stack, gate⟩
  restore : ∀ engine : Engine, engine.code.programs.get? stack.program = none →
    engine.restore stack = .error (.unknownProgram stack.program)

namespace Engine

variable {engine : Engine} {stack : Stack} {gate : Gate} {error : EngineError}

theorem drive_refused (refused : (engine.drive stack gate).answer.error = some error) :
    engine.drive stack gate = ⟨.error error, engine, stack, gate⟩ := by
  have driving := drive_driving engine stack gate
  generalize engine.drive stack gate = driven at driving refused ⊢
  cases driving with
  | refused other =>
      obtain rfl : other = error := by simpa [Driven.answer] using refused
      rfl
  | unentered => simp [Driven.answer] at refused
  | entered =>
      generalize Invocation.run _ _ _ _ _ _ = ended at refused
      obtain ⟨progress, machine⟩ := ended
      cases progress <;> simp [Driven.answer, ran] at refused

theorem drive_unloaded {entry : EntryCall} (started : stack.entry = some entry)
    (unloaded : engine.code.programs.get? stack.program = none) (gate : Gate) :
    engine.drive stack gate = ⟨.error (.unknownProgram stack.program), engine, stack, gate⟩ := by
  unfold drive
  simp only [started]
  rw [if_pos (by simp [unloaded])]

theorem drive_loaded {entry : EntryCall} (started : stack.entry = some entry)
    (refused : (engine.drive stack gate).answer.error = some error) :
    engine.code.programs.get? stack.program = none := by
  by_cases loaded : (engine.code.programs.get? stack.program).isSome = true
  · -- Whatever the call goes to, it has an outcome.
    have unchanged := drive_refused refused
    cases callee : entryCallee engine.code stack entry with
    | found function kept =>
        rw [drive_entered started loaded callee] at unchanged
        generalize Invocation.run _ _ _ _ _ _ = ended at unchanged
        obtain ⟨progress, machine⟩ := ended
        cases progress <;> cases unchanged
    | gone | notFound =>
        have there : ¬ (engine.code.programs.get? stack.program).isNone = true := by
          simpa [Option.isSome_iff_ne_none] using loaded
        unfold drive at unchanged
        simp only [started, if_neg there, callee] at unchanged
        cases unchanged
  · simpa using loaded

theorem start_active (active : stack.isActive = true) (entry : EntryCall) :
    engine.start stack entry gate = ⟨.error .callInProgress, engine, stack, gate⟩ := by
  rw [start, if_pos active]

theorem start_idle (idle : stack.isActive = false) (entry : EntryCall) :
    engine.start stack entry gate = engine.drive (stack.begun entry) gate := by
  rw [start, if_neg (by simp [idle])]
  rfl

theorem start_refused {entry : EntryCall}
    (refused : (engine.start stack entry gate).answer.error = some error) :
    (stack.isActive = true ∧ engine.start stack entry gate = ⟨.error error, engine, stack, gate⟩) ∨
    (stack.isActive = false ∧ engine.code.programs.get? stack.program = none ∧
      engine.start stack entry gate =
        ⟨.error (.unknownProgram stack.program), engine, stack.begun entry, gate⟩) := by
  cases active : stack.isActive with
  | true =>
      rw [start_active active] at refused ⊢
      obtain rfl : EngineError.callInProgress = error := by simpa [Driven.answer] using refused
      exact Or.inl ⟨rfl, rfl⟩
  | false =>
      rw [start_idle active] at refused ⊢
      have unloaded : engine.code.programs.get? (stack.begun entry).program = none :=
        drive_loaded rfl refused
      exact Or.inr ⟨rfl, unloaded, drive_unloaded rfl unloaded gate⟩

theorem restore_unloaded (active : stack.isActive = true)
    (unloaded : engine.code.programs.get? stack.program = none) :
    engine.restore stack = .error (.unknownProgram stack.program) := by
  unfold restore
  rw [if_neg (by simp [active]), if_pos (by simp [unloaded])]

end Engine

theorem Stack.stuck_begun (stack : Stack) (entry : EntryCall) : (stack.begun entry).Stuck where
  call := fun _ _ _ _ => Engine.start_active rfl _
  callMethod := by
    intro engine handle name args gate
    unfold Engine.callMethod
    split
    · exact ⟨_, rfl⟩
    · exact ⟨_, Engine.start_active rfl _⟩
  resume := fun _ gate unloaded => Engine.drive_unloaded rfl unloaded gate
  restore := fun _ unloaded => Engine.restore_unloaded rfl unloaded

theorem Engine.start_answer {engine : Engine} {stack : Stack} {gate : Gate} {error : EngineError}
    {entry : EntryCall} {strands : Prop}
    (meant : strands ↔ stack.isActive = false ∧ engine.code.programs.get? stack.program = none)
    (refused : (engine.start stack entry gate).answer.error = some error) :
    (¬ strands ∧ (engine.start stack entry gate).answer = ⟨some error, engine, stack, gate⟩) ∨
    (strands ∧ error = .unknownProgram stack.program ∧ ∃ entry', (stack.begun entry').Stuck ∧
      (engine.start stack entry gate).answer =
        ⟨some error, engine, stack.begun entry', gate⟩) := by
  rcases Engine.start_refused refused with ⟨active, same⟩ | ⟨idle, unloaded, begun⟩
  · refine Or.inl ⟨fun strands => ?_, by rw [same, Driven.answer]⟩
    rw [(meant.mp strands).1] at active
    cases active
  · rw [begun] at refused
    obtain rfl : EngineError.unknownProgram stack.program = error := by
      simpa [Driven.answer] using refused
    exact Or.inr ⟨meant.mpr ⟨idle, unloaded⟩, rfl, entry, stack.stuck_begun entry,
      by rw [begun, Driven.answer]⟩

/-- A request that is refused changes nothing, with one exception: a call from an idle stack whose
program is not loaded stays on the stack, which takes no other call then. -/
theorem refusals_change_nothing {engine : Engine} {stack : Stack} {gate : Gate} {request : StackRequest}
    {error : EngineError} (refused : (engine.answer stack gate request).error = some error) :
    (¬ engine.Strands stack request ∧
      engine.answer stack gate request = ⟨some error, engine, stack, gate⟩) ∨
    (engine.Strands stack request ∧ error = .unknownProgram stack.program ∧
      ∃ entry, (stack.begun entry).Stuck ∧
        engine.answer stack gate request = ⟨some error, engine, stack.begun entry, gate⟩) := by
  cases request with
  | call name args => exact Engine.start_answer (by simp [Engine.Strands]) refused
  | callMethod handle name args =>
      simp only [Engine.answer, Engine.callMethod] at refused ⊢
      cases there : engine.world.heap.get? handle with
      | none =>
          simp only [there] at refused ⊢
          obtain rfl : EngineError.staleObject = error := by simpa [Driven.answer] using refused
          exact Or.inl ⟨by simp [Engine.Strands, there], rfl⟩
      | some object =>
          simp only [there] at refused ⊢
          exact Engine.start_answer (by simp [Engine.Strands, there]) refused
  | resume =>
      refine Or.inl ⟨fun strands => strands.2.2, ?_⟩
      have same : engine.resume stack gate = _ := Engine.drive_refused refused
      rw [Engine.answer, same, Driven.answer]
  | restore =>
      refine Or.inl ⟨fun strands => strands.2.2, ?_⟩
      simp only [Engine.answer] at refused ⊢
      cases restored : engine.restore stack with
      | ok after =>
          rw [restored] at refused
          cases refused
      | error other =>
          rw [restored] at refused
          cases refused
          rfl

def deserted : List Operation :=
  [.compile "p" "int main() \x7b return 1; \x7d", .newStack ⟨1⟩, .unload ⟨1⟩]

/-- The call is refused, and the stack is not idle any more: it refuses the next call as if one were
suspended on it. -/
theorem refused_call_stays : ((Host.after deserted).executions.map fun stack =>
      let answer := (Host.after deserted).engine.answer stack .unlimited (.call "main" [])
      let next := answer.engine.answer answer.stack .unlimited (.call "main" [])
      (stack.isActive, answer.error, answer.stack.isActive, next.error)) =
    [(false, some (.unknownProgram ⟨1⟩), true, some .callInProgress)] := by
  decide +kernel

theorem refusals_change_nothing_of_deserted : ∃ stack ∈ (Host.after deserted).executions,
    let engine := (Host.after deserted).engine
    let request := StackRequest.call "main" []
    (engine.answer stack .unlimited request).error = some (.unknownProgram ⟨1⟩) ∧
    ((¬ engine.Strands stack request ∧ engine.answer stack .unlimited request =
        ⟨some (.unknownProgram ⟨1⟩), engine, stack, .unlimited⟩) ∨
      (engine.Strands stack request ∧
        EngineError.unknownProgram ⟨1⟩ = .unknownProgram stack.program ∧
        ∃ entry, (stack.begun entry).Stuck ∧ engine.answer stack .unlimited request =
          ⟨some (.unknownProgram ⟨1⟩), engine, stack.begun entry, .unlimited⟩)) := by
  have shown : ((Host.after deserted).executions.head?.map fun stack =>
      ((Host.after deserted).engine.answer stack .unlimited (.call "main" [])).error) =
        some (some (.unknownProgram ⟨1⟩)) := by
    decide +kernel
  obtain ⟨stack, first, refused⟩ := Option.map_eq_some_iff.mp shown
  exact ⟨stack, List.mem_of_head? first, refused, refusals_change_nothing refused⟩

end ScriptEngine
