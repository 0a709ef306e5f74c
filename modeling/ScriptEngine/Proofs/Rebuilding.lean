import ScriptEngine.Proofs.Suspended
/-! Setting up an engine again. The code of an engine, and the identities of what it loads next, come
of the classes, programs and settings it was given; whatever else a host did has no part in them. -/

namespace ScriptEngine

def Operation.isSetup : Operation → Bool
  | .register _ | .compile .. | .unload _ | .set .. => true
  | _ => false

structure Engine.Twin (engine other : Engine) : Prop where
  code : other.code = engine.code
  functions : other.ids.lastFunction = engine.ids.lastFunction
  programs : other.ids.lastProgram = engine.ids.lastProgram

structure World.Untouched (world : World) : Prop where
  heap : world.heap = {}
  guards : world.guards.guards = []
  instances : world.instances = []
  callees : world.callees = []

namespace Engine

variable {engine other : Engine}

theorem Twin.refl (engine : Engine) : engine.Twin engine := ⟨rfl, rfl, rfl⟩

theorem Twin.symm (twin : engine.Twin other) : other.Twin engine :=
  ⟨twin.code.symm, twin.functions.symm, twin.programs.symm⟩

theorem Twin.trans {first second third : Engine} (before : first.Twin second)
    (behind : second.Twin third) : first.Twin third where
  code := behind.code.trans before.code
  functions := behind.functions.trans before.functions
  programs := behind.programs.trans before.programs

theorem Twin.of_world {engine after : Engine} (kept : after = { engine with world := after.world }) :
    engine.Twin after := by
  rw [kept]
  exact ⟨rfl, rfl, rfl⟩

theorem compile_twin (twin : engine.Twin other) (name source : String) :
    (engine.compile name source).2.Twin (other.compile name source).2 := by
  obtain ⟨code, functions, programs⟩ := twin
  obtain ⟨⟨lastFunction, lastProgram, lastContext⟩, loaded, world⟩ := engine
  obtain ⟨⟨_, _, contexts⟩, _, untouched⟩ := other
  dsimp only at code functions programs
  subst code functions programs
  unfold compile Compiler.compile
  dsimp only [Identities.nextProgram, compileEnv]
  generalize Compiler.declarations _ _ _ = read
  obtain ⟨stream, declared, error⟩ := read
  cases error with
  | some error => exact ⟨rfl, rfl, rfl⟩
  | none =>
      dsimp only
      generalize Compiler.compileBodies _ _ _ _ _ _ _ = bodies
      obtain ⟨bodies, published⟩ := bodies
      cases bodies <;> exact ⟨rfl, rfl, rfl⟩

theorem restore_twin (engine : Engine) (stack : Stack) (after : Engine) (restored : Stack)
    (done : engine.restore stack = .ok (after, restored)) : engine.Twin after := by
  obtain ⟨_, rfl, _⟩ | ⟨_, _, rfl, _⟩ := restore_cases done
  · exact .refl _
  · exact ⟨rfl, rfl, rfl⟩

end Engine

namespace Host

variable {host copy : Host}

theorem drive_twin {gate : Gate} {run : Stack → Driven}
    (drives : ∀ stack, host.engine.Drives stack gate (run stack)) (place : Nat) :
    host.engine.Twin (host.drive place run).engine := by
  unfold drive
  split
  · exact .of_world (drives _).keeps
  · exact .refl _

theorem step_twin {operation : Operation} (other : operation.isSetup = false) :
    host.engine.Twin (host.step operation).engine := by
  cases operation with
  | register | compile | unload | set => cases other
  | newInstance className =>
      simp only [step, Engine.newInstance]
      cases host.engine.code.classes.members? className <;> exact ⟨rfl, rfl, rfl⟩
  | bindInstance program handle =>
      simp only [step, Engine.bindInstance]
      split
      · exact .refl _
      · split <;> exact ⟨rfl, rfl, rfl⟩
  | changeHeap change => exact .of_world rfl
  | newStack program => exact ⟨rfl, rfl, rfl⟩
  | call place name args gate => exact drive_twin (fun stack => Engine.start_drives ..) place
  | callMethod place handle name args gate =>
      exact drive_twin (fun stack => Engine.callMethod_drives ..) place
  | resume place gate => exact drive_twin (fun _ => .resumed) place
  | abort place =>
      simp only [step]
      split <;> exact ⟨rfl, rfl, rfl⟩
  | copy place =>
      simp only [step]
      split <;> exact .refl _
  | reload place =>
      simp only [step]
      split
      · rename_i stack _
        have restored := host.engine.restore_twin stack.unbound
        generalize host.engine.restore stack.unbound = result at restored ⊢
        cases result with
        | error error => exact .refl _
        | ok done => exact restored _ _ rfl
      · exact .refl _

theorem step_setup (twin : host.engine.Twin copy.engine) {operation : Operation}
    (sets : operation.isSetup = true) :
    (host.step operation).engine.Twin (copy.step operation).engine := by
  obtain ⟨code, functions, programs⟩ := twin
  cases operation with
  | register decl =>
      simp only [step, Engine.register, code]
      cases host.engine.code.classes.register decl with
      | error error => exact ⟨code, functions, programs⟩
      | ok classes => exact ⟨rfl, functions, programs⟩
  | compile name source => exact Engine.compile_twin ⟨code, functions, programs⟩ name source
  | unload program =>
      simp only [step, Engine.unload, code]
      cases host.engine.code.programs.get? program with
      | none => exact ⟨code, functions, programs⟩
      | some loaded => exact ⟨rfl, functions, programs⟩
  | set setting value =>
      simp only [step, Engine.set]
      cases setting with
      | maxLockWaiters => exact ⟨code, functions, programs⟩
      | maxCallDepth | resolvePublicCalls => exact ⟨by rw [code], functions, programs⟩
  | newInstance | bindInstance | changeHeap | newStack | call | callMethod | resume | abort | copy
  | reload => cases sets

theorem step_untouched (untouched : host.engine.world.Untouched) {operation : Operation}
    (sets : operation.isSetup = true) : (host.step operation).engine.world.Untouched := by
  cases operation with
  | register decl =>
      simp only [step, Engine.register]
      cases host.engine.code.classes.register decl <;> exact untouched
  | compile name source =>
      simp only [step, Engine.compile]
      split <;> exact untouched
  | unload program =>
      simp only [step, Engine.unload]
      cases host.engine.code.programs.get? program with
      | none => exact untouched
      | some loaded =>
          refine ⟨untouched.heap, untouched.guards, ?_, untouched.callees⟩
          simp only [withEngine, World.withoutInstance, untouched.instances, List.filter_nil]
  | set setting value =>
      cases setting with
      | maxCallDepth | resolvePublicCalls => exact untouched
      | maxLockWaiters =>
          exact ⟨untouched.heap, untouched.guards, untouched.instances, untouched.callees⟩
  | newInstance | bindInstance | changeHeap | newStack | call | callMethod | resume | abort | copy
  | reload => cases sets

/-- The engine that is set up as the engine of a host was, and handed its heap. -/
def rebuilt (operations : List Operation) : Engine :=
  (after (operations.filter Operation.isSetup)).engine.withHeap
    (after operations).engine.world.heap

theorem after_setup (operations : List Operation) :
    (after operations).engine.Twin (after (operations.filter Operation.isSetup)).engine ∧
      (after (operations.filter Operation.isSetup)).engine.world.Untouched := by
  induction operations using List.reverseRecOn with
  | nil => exact ⟨.refl _, rfl, rfl, rfl, rfl⟩
  | append_singleton operations operation ih =>
      obtain ⟨twin, untouched⟩ := ih
      rw [List.filter_append, after_concat]
      cases sets : operation.isSetup with
      | true =>
          rw [List.filter_cons_of_pos sets, List.filter_nil, after_concat]
          exact ⟨step_setup twin sets, step_untouched untouched sets⟩
      | false =>
          rw [List.filter_cons_of_neg (by simp [sets]), List.filter_nil, List.append_nil]
          exact ⟨(step_twin sets).symm.trans twin, untouched⟩

theorem rebuilt_code (operations : List Operation) :
    (rebuilt operations).code = (after operations).engine.code :=
  (after_setup operations).1.code

end Host

end ScriptEngine
