import ScriptEngine.Proofs.Finishing
import ScriptEngine.Proofs.Rebinding
import ScriptEngine.Proofs.Rebuilding
/-! Saving a suspended stack together with the heap, and going on in an engine that was set up
again. The call comes to the same end there if the running code could see nothing of its world but
the heap: objects that programs have bound, and identities that call sites keep, are not saved. -/

namespace ScriptEngine

namespace Restoration

def KeepsLeft (context : ContextId) (restore : Restore) : Prop :=
  ∀ frame guards, guards.LeftTo context → (restore frame guards).2.LeftTo context

variable {context : ContextId}

theorem retakeGuard_left {function : Function} {held : Call} {guards : GuardTable}
    (left : guards.LeftTo context) : (retakeGuard context function held guards).LeftTo context := by
  unfold retakeGuard
  split
  · split
    · exact left.tryLock _
    · exact left
  · exact left

theorem restore_left (code : Code) (context : ContextId) :
    KeepsLeft context (restore code context) := by
  have steady : Steady fun _ guards => guards.LeftTo context :=
    ⟨fun left _ => left, fun _ _ left => left⟩
  exact steady.restore fun _ _ left => retakeGuard_left left

end Restoration

/-- A world that running code cannot tell from its heap alone. -/
def World.OnlyHeap (code : Code) (world : World) : Prop :=
  world.Agrees code { heap := world.heap }

/-- The engine without what is saved nowhere. -/
def Engine.forgetting (engine : Engine) : Engine :=
  { engine with world := { engine.world with instances := [], callees := [] } }

/-- Resumed under these gates, the call on a stack is over with an outcome, and leaves a heap. -/
structure Engine.Ends (engine : Engine) (stack : Stack) (gate : Gate) (gates : List Gate)
    (outcome : Outcome) (heap : Heap) : Prop where
  finished : outcome ≠ .suspended
  outcome : ((engine.resume stack gate).resumed gates).outcome = .ok outcome
  heap : ((engine.resume stack gate).resumed gates).engine.world.heap = heap

def Evaluation.Callee.outcome? : Evaluation.Callee → Option Outcome
  | .found .. => none
  | .gone => some (.failed ⟨.unknownFunction, none⟩)
  | .notFound cause => some (.notFound cause)

theorem Evaluation.Callee.outcome?_finished {callee : Evaluation.Callee} {outcome : Outcome}
    (unfound : callee.outcome? = some outcome) : outcome ≠ .suspended := by
  intro suspended
  subst suspended
  cases callee <;> cases unfound

theorem Evaluation.Callee.outcome?_none {callee : Evaluation.Callee}
    (entered : callee.outcome? = none) : ∃ function kept, callee = .found function kept := by
  cases callee with
  | found function kept => exact ⟨function, kept, rfl⟩
  | gone | notFound => cases entered

namespace Engine

variable {engine : Engine} {stack : Stack} {entry : EntryCall} {gate : Gate} {gates : List Gate}
  {outcome ending : Outcome} {heap : Heap}

theorem drive_unentered (started : stack.entry = some entry)
    (loaded : (engine.code.programs.get? stack.program).isSome = true)
    (unentered : (entryCallee engine.code stack entry).outcome? = some outcome) (gate : Gate) :
    ∃ lastError, engine.drive stack gate =
      ⟨.ok outcome, engine, { stack with lastError }.finish, gate⟩ := by
  have there : ¬ (engine.code.programs.get? stack.program).isNone = true := by
    simpa using Option.isSome_iff_ne_none.mp loaded
  unfold drive
  simp only [started, if_neg there]
  cases found : entryCallee engine.code stack entry with
  | found function kept =>
      rw [found] at unentered
      cases unentered
  | gone =>
      rw [found] at unentered
      cases unentered
      exact ⟨some ⟨.unknownFunction, none⟩, rfl⟩
  | notFound cause =>
      rw [found] at unentered
      cases unentered
      exact ⟨stack.lastError, rfl⟩

theorem Ends.of_unentered (ends : engine.Ends stack gate gates ending heap)
    (started : stack.entry = some entry)
    (loaded : (engine.code.programs.get? stack.program).isSome = true)
    (unentered : (entryCallee engine.code stack entry).outcome? = some outcome) :
    ending = outcome ∧ heap = engine.world.heap := by
  obtain ⟨lastError, driven⟩ := drive_unentered started loaded unentered gate
  obtain ⟨_, unfound, left⟩ := ends
  rw [resume, driven] at unfound left
  cases gates with
  | nil => exact ⟨(Except.ok.inj unfound).symm, left.symm⟩
  | cons next rest =>
      rw [Driven.resumed_idle rfl] at unfound
      cases unfound

theorem Ends.of_pending {invocation : Invocation} (ends : engine.Ends stack gate gates ending heap)
    (pending : Pending engine stack entry invocation) (consistent : engine.code.Consistent) :
    let ran := Remainder.run engine.code stack.context engine.code.maxCallDepth invocation
      stack.root ⟨engine.world, 0⟩
    ending = Direct.outcome ran.result ∧ heap = ran.course.world.heap := by
  obtain ⟨same, world⟩ := pending.resumed_eq consistent ends.finished gate gates 0 ends.outcome
  exact ⟨same, by rw [← ends.heap, world]⟩

/-- Whenever the call on a stack is over, it has come to this end. -/
def EndsOnly (engine : Engine) (stack : Stack) (outcome : Outcome) (heap : Heap) : Prop :=
  ∀ gate gates ending left, engine.Ends stack gate gates ending left →
    ending = outcome ∧ left = heap

/-- Going on with stacks that are alike, in engines with the same code whose worlds agree, comes to
one end; and it does come to it where no other context has guards. -/
theorem ends_alike {other : Engine} {restored : Stack} {past : Past}
    (code : other.code = engine.code) (fits : past.Fits engine.code) (formed : stack.Formed past)
    (also : restored.Formed past) (kept : restored = { stack with root := restored.root })
    (same : restored.root.trimmed engine.code = stack.root.trimmed engine.code)
    (agrees : engine.world.Agrees engine.code other.world)
    (left : other.world.guards.LeftTo stack.context) (active : stack.isActive = true)
    (loaded : (engine.code.programs.get? stack.program).isSome = true) :
    ∃ outcome heap, engine.EndsOnly stack outcome heap ∧ other.EndsOnly restored outcome heap ∧
      ∃ count, other.Ends restored .unlimited (List.replicate count .unlimited) outcome heap := by
  obtain ⟨ids, _, world⟩ := other
  obtain ⟨context, program, entry?, root, lastError⟩ := restored
  dsimp only at code
  subst code
  cases kept
  obtain ⟨entry, started⟩ := Option.isSome_iff_exists.mp active
  have names : root.named? = stack.root.named? := by
    rw [← root.named?_trimmed, same, Frame.named?_trimmed]
  have chosen : entryCallee engine.code { stack with root } entry =
      entryCallee engine.code stack entry := Evaluation.callee_named names ..
  -- What the call means is read off the code and the name in its frame, which both stacks share.
  cases unfound : (entryCallee engine.code stack entry).outcome? with
  | some outcome =>
      have also : (entryCallee engine.code { stack with root } entry).outcome? = some outcome := by
        rw [chosen, unfound]
      refine ⟨outcome, engine.world.heap, ?_, ?_, 0, ?_⟩
      · exact fun _ _ _ _ ends => ends.of_unentered started loaded unfound
      · intro gate gates ending left ends
        obtain ⟨same, heap⟩ := ends.of_unentered started loaded also
        exact ⟨same, heap.trans agrees.heap⟩
      · obtain ⟨lastError, driven⟩ := @drive_unentered ⟨ids, engine.code, world⟩ { stack with root }
          entry outcome started loaded also .unlimited
        refine ⟨Evaluation.Callee.outcome?_finished unfound, ?_, ?_⟩
        · exact congrArg Driven.outcome driven
        · exact (congrArg (·.engine.world.heap) driven).trans agrees.heap
  | none =>
      obtain ⟨function, kept, found⟩ := Evaluation.Callee.outcome?_none unfound
      have pending : Pending engine stack entry (entry.invocation function stack.program) :=
        ⟨loaded, started, ⟨kept, found⟩, rfl⟩
      have copied : Pending ⟨ids, engine.code, world⟩ { stack with root } entry
          (entry.invocation function stack.program) :=
        ⟨loaded, started, ⟨kept, chosen.trans found⟩, rfl⟩
      -- Frames that are trimmed alike have the same left to evaluate.
      have matched := pending.goes_alike fits formed.shape also.shape same agrees 0
      let ran := Remainder.run engine.code stack.context engine.code.maxCallDepth
        (entry.invocation function stack.program) stack.root ⟨engine.world, 0⟩
      have only : EndsOnly ⟨ids, engine.code, world⟩ { stack with root }
          (Direct.outcome ran.result) ran.course.world.heap := by
        intro gate gates ending left ends
        obtain ⟨outcome, heap⟩ := ends.of_pending copied fits.consistent
        exact ⟨outcome.trans (congrArg _ matched.result), heap.trans matched.abreast.world.heap⟩
      refine ⟨_, _, fun _ _ _ _ ends => ends.of_pending pending fits.consistent, only, ?_⟩
      obtain ⟨count, outcome, finished, ends⟩ := copied.finishes fits also left 0
      have reached : Ends ⟨ids, engine.code, world⟩ { stack with root } .unlimited
          (List.replicate count .unlimited) outcome _ := ⟨finished, ends, rfl⟩
      obtain ⟨same, heap⟩ := only _ _ _ _ reached
      rw [same, heap] at reached
      exact ⟨count, reached⟩

end Engine

theorem Host.rebuilt_world (operations : List Operation) :
    ∃ maxWaiters, (rebuilt operations).world =
      { heap := (after operations).engine.world.heap, guards := { maxWaiters } } := by
  have untouched := (after_setup operations).2
  unfold rebuilt Engine.withHeap
  generalize (after (operations.filter Operation.isSetup)).engine.world = world at untouched ⊢
  obtain ⟨heap, ⟨guards, maxWaiters⟩, instances, callees⟩ := world
  obtain ⟨_, unheld, unbound, unkept⟩ := untouched
  dsimp only at unheld unbound unkept
  subst unheld unbound unkept
  exact ⟨maxWaiters, rfl⟩

/-- A call that is suspended is saved and loaded, with the heap, into an engine that was set up in
the same way. However it is gone on with there, it comes to one end, and it does come to it: to the
end of the call where it was saved, had all been forgotten there that is saved nowhere. That is the
end the call has there anyhow if code cannot tell the world from its heap. -/
theorem reloaded_call_continues (operations : List Operation) (stack : Stack)
    (among : stack ∈ (Host.after operations).executions) (active : stack.isActive = true)
    (loaded : ((Host.after operations).engine.code.programs.get? stack.program).isSome = true) :
    ∃ engine restored outcome heap,
      (Host.rebuilt operations).restore stack.unbound = .ok (engine, restored) ∧
      (∃ count,
        engine.Ends restored .unlimited (List.replicate count .unlimited) outcome heap) ∧
      engine.EndsOnly restored outcome heap ∧
      (Host.after operations).engine.forgetting.EndsOnly stack outcome heap ∧
      ((Host.after operations).engine.world.OnlyHeap (Host.after operations).engine.code →
        (Host.after operations).engine.EndsOnly stack outcome heap) := by
  obtain ⟨known, formed⟩ := Host.after_formed operations
  have code := Host.rebuilt_code operations
  obtain ⟨maxWaiters, world⟩ := Host.rebuilt_world operations
  generalize Host.after operations = host at *
  generalize Host.rebuilt operations = rebuilt at *
  obtain ⟨ids, _, _⟩ := rebuilt
  dsimp only at code world
  subst code world
  have fits := formed.knows.fits
  have whole := formed.executions stack among
  obtain ⟨shape, rebuilt⟩ := @Restoration.callFrame_rebuilds _ _ stack.context fits _ whole.shape
    { maxWaiters }
  have same := (congrArg (Frame.trimmed host.engine.code) rebuilt).trans
    (Frame.trimmed_rebuilt stack.root)
  have left := Restoration.restore_left host.engine.code stack.context stack.root.unbound
    { maxWaiters } (.fresh _ maxWaiters)
  have restores := @Engine.restore_active ⟨ids, host.engine.code,
    { heap := host.engine.world.heap, guards := { maxWaiters } }⟩ stack.unbound active loaded
  dsimp only [Stack.unbound] at restores
  generalize Restoration.restore _ _ _ _ = result at shape same left restores
  obtain ⟨root, guards⟩ := result
  have idle : stack.entry = none → root = {} := by
    intro entryless
    rw [Stack.isActive, entryless] at active
    cases active
  let engine : Engine := ⟨ids.reserveContext stack.context, host.engine.code,
    { heap := host.engine.world.heap, guards }⟩
  let restored : Stack := { stack with root }
  -- What has forgotten all that is not saved differs from the rebuilt engine in its guards alone.
  obtain ⟨outcome, heap, forgotten, only, count, ends⟩ :=
    @Engine.ends_alike host.engine.forgetting stack engine restored _ rfl fits whole
      ⟨shape, idle⟩ rfl same
      (World.Agrees.withGuards (.refl _ { heap := host.engine.world.heap })
        host.engine.world.guards guards) left active loaded
  refine ⟨engine, restored, outcome, heap, restores, ⟨count, ends⟩, only, forgotten, ?_⟩
  -- The rebuilt engine comes to one end only, so the end reached here is that of the original, too.
  intro onlyHeap
  obtain ⟨_, _, here, there, _⟩ := @Engine.ends_alike host.engine stack engine restored _ rfl
    fits whole ⟨shape, idle⟩ rfl same (onlyHeap.withGuards host.engine.world.guards guards) left
    active loaded
  obtain ⟨rfl, rfl⟩ := there _ _ _ _ ends
  exact here

def World.isUnmarked (code : Code) (world : World) : Bool :=
  world.instances.isEmpty && code.programs.loaded.all fun program => program.functions.all fun function =>
    function.sites.all fun site =>
      world.callee ⟨function.program, site.offset⟩ site.callee = site.callee

theorem World.onlyHeap_of_isUnmarked {code : Code} {world : World}
    (checked : world.isUnmarked code = true) : world.OnlyHeap code := by
  simp only [isUnmarked, Bool.and_eq_true, List.isEmpty_iff, List.all_eq_true, decide_eq_true_eq]
    at checked
  obtain ⟨unbound, sites⟩ := checked
  refine ⟨rfl, fun function _ _ => ?_, ?_⟩
  · rw [instance?, instance?, unbound]
  · rintro program site ⟨function, owned, rfl, among⟩ className types
    obtain ⟨loaded, got, declared⟩ := Option.bind_eq_some_iff.mp owned
    rw [sites loaded (Programs.mem_of_get? got).1 function
      (List.mem_of_find?_eq_some declared) site among]
    rfl

def fillingTank : List Operation :=
  [.register { name := "Tank", fields := [⟨"level", .int, false⟩] },
    .compile "tank" "class Tank {
        synchronized int fill(int n) { level = level + n; wait(1); return level; } }
      int main(Tank tank) { return tank.fill(2) + tank.fill(3); }",
    .newInstance "Tank", .newStack ⟨1⟩,
    .call 0 "main" [.pointer "" "Tank" ⟨0, 0⟩] .unlimited]

theorem reloaded_call_continues_of_filling :
    ∃ stack engine restored outcome heap, (Host.after fillingTank).executions = [stack] ∧
      (Host.rebuilt fillingTank).restore stack.unbound = .ok (engine, restored) ∧
      (∃ count,
        engine.Ends restored .unlimited (List.replicate count .unlimited) outcome heap) ∧
      engine.EndsOnly restored outcome heap ∧
      (Host.after fillingTank).engine.forgetting.EndsOnly stack outcome heap ∧
      (Host.after fillingTank).engine.EndsOnly stack outcome heap := by
  have checked : ((Host.after fillingTank).executions.length == 1 &&
      (Host.after fillingTank).engine.world.isUnmarked (Host.after fillingTank).engine.code &&
      (Host.after fillingTank).executions.all fun stack => stack.isActive &&
        ((Host.after fillingTank).engine.code.programs.get? stack.program).isSome) = true := by
    decide +kernel
  simp only [Bool.and_eq_true, beq_iff_eq, List.all_eq_true] at checked
  obtain ⟨⟨count, unmarked⟩, checks⟩ := checked
  obtain ⟨stack, only⟩ := List.length_eq_one_iff.mp count
  have among : stack ∈ (Host.after fillingTank).executions := only ▸ List.mem_singleton_self stack
  obtain ⟨active, program⟩ := checks stack among
  obtain ⟨engine, restored, outcome, heap, restores, ends, there, forgotten, here⟩ :=
    reloaded_call_continues fillingTank stack among active program
  exact ⟨stack, engine, restored, outcome, heap, only, restores, ends, there, forgotten,
    here (World.onlyHeap_of_isUnmarked unmarked)⟩

/-- The integers that the calls on the stacks of a host hand back when they are gone on with, first
where they are, then in an engine that is set up again and handed the heap. -/
def Host.continued (operations : List Operation) : List (Option Int64 × Option Int64) :=
  (after operations).executions.map fun stack =>
    (((after operations).engine.resume stack .unlimited).int?,
      match (rebuilt operations).restore stack.unbound with
      | .ok (engine, restored) => (engine.resume restored .unlimited).int?
      | .error _ => none)

/-- A host whose only stack is suspended between two calls of a method on the object of its program.
-/
def chargingRobot : List Operation :=
  [.register { name := "Robot", fields := [⟨"energy", .int, false⟩] },
    .compile "robot" "int Robot::charge(int n) { energy = energy + n; return energy; }
      int main() { int a = charge(5); wait(1); return charge(5); }",
    .newStack ⟨1⟩, .call 0 "main" [] .unlimited]

/-- The object of a program is not found again, and a method runs on a new one. -/
theorem reload_forgets_object : Host.continued chargingRobot = [(some 10, some 5)] := by
  decide +kernel

def twoKinds : List Operation :=
  [.register { name := "C" }, .register { name := "D", parent := some "C" },
    .compile "first" "class C { int m(long a, float b) { return 1; } }",
    .compile "second" "class C { int m(float a, long b) { return 2; } }
      class D { int m(int a, int b) { return 4; } }
      int go(C c) { return c.m(1, 1); }
      int main(C c, D d) { int x = go(d); wait(1); return go(c); }",
    .newInstance "C", .newInstance "D", .newStack ⟨2⟩,
    .call 0 "main" [.pointer "" "C" ⟨0, 0⟩, .pointer "" "D" ⟨1, 0⟩] .unlimited]

/-- A call site does not keep what it found, and finds another function. -/
theorem reload_forgets_callee : Host.continued twoKinds = [(some 1, some 2)] := by
  decide +kernel

end ScriptEngine
