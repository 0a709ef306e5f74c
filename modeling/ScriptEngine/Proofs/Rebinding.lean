import ScriptEngine.Proofs.SinglePath
/-! Restoring a suspended stack. A snapshot keeps everything of a frame tree but the bindings of its
variables, and restoring binds each of them again to what it was bound to. -/

namespace ScriptEngine

namespace Engine

variable {engine : Engine} {stack : Stack}

theorem restore_active (active : stack.isActive = true)
    (program : (engine.code.programs.get? stack.program).isSome = true) :
    let restored :=
      Restoration.restore engine.code stack.context stack.root engine.world.guards
    engine.restore stack = .ok
      ({ engine with
          ids := engine.ids.reserveContext stack.context
          world := { engine.world with guards := restored.2 } },
        { stack with root := restored.1 }) := by
  have loaded : ¬ (engine.code.programs.get? stack.program).isNone = true := by
    simpa using Option.isSome_iff_ne_none.mp program
  simp only [restore, active, Bool.not_true, Bool.false_eq_true, if_false, if_neg loaded]

end Engine

/-- Whatever was done before, also where stacks were saved on another host and loaded, a stack that is
suspended and whose program and functions are loaded is restored from what is left of it without
bindings, to the last binding and without running anything. -/
theorem restore_rebinds {host : Host} (reachable : host.Reachable) (stack : Stack)
    (among : stack ∈ host.executions) (active : stack.isActive = true)
    (program : (host.engine.code.programs.get? stack.program).isSome = true)
    (functions : stack.root.isLoaded host.engine.code = true) :
    ∃ guards, host.engine.restore stack.unbound = .ok
      ({ host.engine with
          ids := host.engine.ids.reserveContext stack.context
          world := { host.engine.world with guards } }, stack) := by
  obtain ⟨known, resting⟩ := reachable.resting
  have formed := resting.toFormed
  have restored := @Engine.restore_active host.engine stack.unbound active program
  have same : (Restoration.restore host.engine.code stack.context stack.root.unbound
      host.engine.world.guards).1 = stack.root :=
    (Restoration.callFrame_rebuilds formed.knows.fits
      (formed.executions stack among).shape _).2.trans (Frame.rebuilt_eq functions)
  refine ⟨(Restoration.restore host.engine.code stack.context stack.root.unbound
    host.engine.world.guards).2, restored.trans ?_⟩
  simp only [Stack.unbound, same]

def waitingMethod : List Operation :=
  [.register { name := "Base", fields := [⟨"count", .int, false⟩] },
    .register { name := "Derived", parent := some "Base" },
    .compile "nested" "int pause(int n) { int kept = n; wait(1); return kept; }
      int Derived::add(int a, int b) { count = count + a; { int more = b; wait(more); } return count; }
      int main() { return 1 + add(pause(2), 3); }",
    .newStack ⟨1⟩, .call 0 "main" [] .unlimited, .resume 0 .unlimited]

theorem restore_rebinds_waiting_method :
    ∃ stack guards, (Host.after waitingMethod).executions = [stack] ∧ stack.root.height = 8 ∧
      (Host.after waitingMethod).engine.restore stack.unbound = .ok
        ({ (Host.after waitingMethod).engine with
            ids := (Host.after waitingMethod).engine.ids.reserveContext stack.context
            world := { (Host.after waitingMethod).engine.world with guards } }, stack) := by
  have checked : ((Host.after waitingMethod).executions.length == 1 &&
      (Host.after waitingMethod).executions.all fun stack => stack.isActive &&
        ((Host.after waitingMethod).engine.code.programs.get? stack.program).isSome &&
          stack.root.isLoaded (Host.after waitingMethod).engine.code &&
            stack.root.height == 8) = true := by
    decide +kernel
  obtain ⟨count, checks⟩ := Bool.and_eq_true_iff.mp checked
  obtain ⟨stack, only⟩ := List.length_eq_one_iff.mp (beq_iff_eq.mp count)
  have among : stack ∈ (Host.after waitingMethod).executions := only ▸ List.mem_singleton_self stack
  have check := List.all_eq_true.mp checks stack among
  simp only [Bool.and_eq_true, beq_iff_eq] at check
  obtain ⟨⟨⟨active, program⟩, functions⟩, height⟩ := check
  obtain ⟨guards, restored⟩ := restore_rebinds
    (Host.after_reachable waitingMethod) stack among active program functions
  exact ⟨stack, guards, only, height, restored⟩

end ScriptEngine
