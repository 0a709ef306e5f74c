import ScriptEngine.Proofs.Readmission
import ScriptEngine.Proofs.Rebuilding
/-! The contexts of stacks. An engine hands out contexts one after the other, and passes over the one
of every suspended stack that it restores. So the stacks on a host have contexts of their own as long
as no stack is loaded whose context is taken already, and none that is idle and whose context is
still to come: such a context is not passed over, and will be handed out. -/

namespace ScriptEngine

namespace Engine

variable {engine : Engine} {stack : Stack}

theorem Drives.keeps_context {gate : Gate} {driven : Driven}
    (drives : engine.Drives stack gate driven) :
    driven.stack.context = stack.context ∧
      driven.engine.ids.lastContext = engine.ids.lastContext := by
  refine ⟨?_, by rw [drives.keeps]⟩
  cases drives with
  | refused => rfl
  | started => exact drive_context ..
  | resumed => exact drive_context ..

theorem restore_keeps_context {after : Engine} {restored : Stack}
    (done : engine.restore stack.unbound = .ok (after, restored)) :
    restored.context = stack.context ∧ after.ids.lastContext =
      if stack.isActive = true then max engine.ids.lastContext stack.context.number
      else engine.ids.lastContext := by
  obtain ⟨idle, rfl, rfl⟩ | ⟨active, _, rfl, rfl⟩ := restore_cases done
  · have idle : ¬ stack.isActive = true := Bool.eq_false_iff.mp idle
    exact ⟨rfl, (if_neg idle).symm⟩
  · exact ⟨rfl, (if_pos (show stack.isActive = true from active)).symm⟩

end Engine

namespace Host

def contexts (host : Host) : List ContextId := host.executions.map Stack.context

structure Apart (host : Host) : Prop where
  distinct : host.contexts.Nodup
  counted : ∀ context ∈ host.contexts, context.number ≤ host.engine.ids.lastContext

/-- No stack has the context of one that is loaded, and none will get it: it is suspended, so that its
context is reserved, or its context was passed over before. -/
structure Adopts (host : Host) (stack : Stack) : Prop where
  alone : stack.context ∉ host.contexts
  counted : stack.isActive = true ∨ stack.context.number ≤ host.engine.ids.lastContext

instance (host : Host) (stack : Stack) : Decidable (host.Adopts stack) :=
  decidable_of_iff (stack.context ∉ host.contexts ∧
      (stack.isActive = true ∨ stack.context.number ≤ host.engine.ids.lastContext))
    ⟨fun ⟨alone, counted⟩ => ⟨alone, counted⟩, fun ⟨alone, counted⟩ => ⟨alone, counted⟩⟩

variable {host : Host} {engine : Engine} {stack : Stack}

theorem Apart.joined (apart : host.Apart) (alone : stack.context ∉ host.contexts)
    (grows : host.engine.ids.lastContext ≤ engine.ids.lastContext)
    (counted : stack.context.number ≤ engine.ids.lastContext) :
    Apart ⟨engine, host.executions ++ [stack]⟩ where
  distinct := by
    simp only [contexts, List.map_append, List.map_cons, List.map_nil]
    refine List.nodup_append.mpr ⟨apart.distinct, List.pairwise_singleton .., ?_⟩
    rintro context old _ new rfl
    exact alone (List.mem_singleton.mp new ▸ old)
  counted := by
    simp only [contexts, List.map_append, List.map_cons, List.map_nil, List.mem_append,
      List.mem_singleton]
    rintro context (old | rfl)
    · exact Nat.le_trans (apart.counted context old) grows
    · exact counted

theorem Apart.congr {after : Host} (apart : host.Apart) (same : after.contexts = host.contexts)
    (grows : host.engine.ids.lastContext ≤ after.engine.ids.lastContext) : after.Apart where
  distinct := same ▸ apart.distinct
  counted := fun context among => Nat.le_trans (apart.counted context (same ▸ among)) grows

theorem contexts_set {place : Nat} {left : Stack} (found : host.executions[place]? = some stack)
    (same : left.context = stack.context) :
    contexts ⟨engine, host.executions.set place left⟩ = host.contexts := by
  obtain ⟨inside, held⟩ := List.getElem?_eq_some_iff.mp found
  have there : place < (host.executions.map Stack.context).length := by simpa using inside
  have known : (host.executions.map Stack.context).get ⟨place, there⟩ = stack.context := by
    simpa using congrArg Stack.context held
  rw [contexts, contexts, List.map_set, same, ← known]
  exact List.set_getElem_self there

theorem Apart.driven (apart : host.Apart) {gate : Gate} {run : Stack → Driven}
    (drives : ∀ stack, host.engine.Drives stack gate (run stack)) (place : Nat) :
    (host.drive place run).Apart := by
  unfold drive
  split
  · rename_i stack found
    obtain ⟨context, contexts⟩ := (drives stack).keeps_context
    exact apart.congr (contexts_set found context) (Nat.le_of_eq contexts.symm)
  · exact apart

/-- Nothing that a host does but copying a stack gives two stacks one context. -/
theorem Apart.step (apart : host.Apart) {operation : Operation}
    (single : ∀ place, operation ≠ .copy place) : (host.step operation).Apart := by
  have kept : ∀ {engine : Engine}, engine.ids.lastContext = host.engine.ids.lastContext →
      Apart { host with engine } := fun same => apart.congr rfl (Nat.le_of_eq same.symm)
  cases operation with
  | register decl =>
      simp only [Host.step, Engine.register]
      cases host.engine.code.classes.register decl <;> exact kept rfl
  | compile name source => exact kept (Engine.compile_keeps host.engine name source).1
  | unload program =>
      simp only [Host.step, Engine.unload]
      cases host.engine.code.programs.get? program <;> exact kept rfl
  | set setting value => cases setting <;> exact kept rfl
  | newInstance className =>
      simp only [Host.step, Engine.newInstance]
      cases host.engine.code.classes.members? className <;> exact kept rfl
  | bindInstance program handle =>
      simp only [Host.step, Engine.bindInstance]
      split
      · exact apart
      · split
        · exact apart
        · exact kept rfl
  | changeHeap change => exact kept rfl
  | newStack program =>
      -- The next context is behind all that were given out or adopted.
      refine apart.joined (fun among => ?_) (Nat.le_succ _) (Nat.le_refl _)
      exact Nat.not_succ_le_self _ (apart.counted _ among)
  | call place name args gate => exact apart.driven (fun stack => Engine.start_drives ..) place
  | callMethod place handle name args gate =>
      exact apart.driven (fun stack => Engine.callMethod_drives ..) place
  | resume place gate => exact apart.driven (fun _ => .resumed) place
  | abort place =>
      simp only [Host.step]
      split
      · rename_i stack found
        exact apart.congr (contexts_set found rfl) (Nat.le_refl _)
      · exact apart
  | copy place => exact absurd rfl (single place)
  | reload place =>
      simp only [Host.step]
      split
      · rename_i stack found
        split
        · rename_i engine restored done
          obtain ⟨context, contexts⟩ := Engine.restore_keeps_context done
          refine apart.congr (contexts_set found context) ?_
          rw [contexts]
          split
          · exact Nat.le_max_left ..
          · exact Nat.le_refl _
        · exact apart
      · exact apart

theorem restoring_ok {restored : Stack}
    (done : host.engine.restore stack.unbound = .ok (engine, restored)) :
    host.restoring stack = ⟨engine, host.executions ++ [restored]⟩ := by
  rw [restoring, done]

theorem Apart.restoring (apart : host.Apart) (adopts : host.Adopts stack) :
    (host.restoring stack).Apart := by
  unfold Host.restoring
  split
  · rename_i engine restored done
    obtain ⟨context, contexts⟩ := Engine.restore_keeps_context done
    refine apart.joined (context ▸ adopts.alone) ?_ ?_
    · rw [contexts]
      split
      · exact Nat.le_max_left ..
      · exact Nat.le_refl _
    · rw [contexts, context]
      split
      · exact Nat.le_max_right ..
      · rename_i idle
        exact adopts.counted.resolve_left idle
  · exact apart

theorem contexts_newStacks (host : Host) (program : ProgramId) (count : Nat) :
    let after := (List.replicate count (Operation.newStack program)).foldl Host.step host
    after.contexts = host.contexts ++
        (List.range count).map (fun index => ⟨host.engine.ids.lastContext + index + 1⟩) ∧
      after.engine.ids.lastContext = host.engine.ids.lastContext + count := by
  induction count with
  | zero => simp
  | succ count ih =>
      obtain ⟨contexts, last⟩ := ih
      rw [List.replicate_succ', List.foldl_append]
      refine ⟨?_, congrArg Nat.succ last⟩
      rw [List.range_succ, List.map_append, List.map_singleton, ← List.append_assoc, ← contexts,
        ← last]
      simp [Host.contexts, Host.step, Engine.newStack, Identities.nextContext]

/-- The hosts that any operations lead to but copying a stack, as long as every stack that is loaded
there may be adopted. A stack may also be dropped. -/
inductive Joined : Host → Prop
  | fresh : Joined {}
  | step {host : Host} {operation : Operation} : host.Joined →
      (∀ place, operation ≠ .copy place) → Joined (host.step operation)
  | restored {host : Host} {stack : Stack} : host.Joined → host.Adopts stack →
      Joined (host.restoring stack)
  | dropped {host : Host} (place : Nat) : host.Joined →
      Joined { host with executions := host.executions.eraseIdx place }

theorem joined_after {operations : List Operation}
    (single : ∀ operation ∈ operations, operation.isSetup = true) : (after operations).Joined := by
  induction operations using List.reverseRecOn with
  | nil => exact .fresh
  | append_singleton operations operation ih =>
      rw [after_concat]
      refine .step (ih fun earlier among => single earlier (List.mem_append_left _ among)) ?_
      rintro place rfl
      cases single (.copy place) (by simp)

theorem Joined.loaded {saved : Option Stack} (joined : host.Joined)
    (free : saved.all (fun stack => decide (host.Adopts stack)) = true) :
    (saved.elim host host.restoring).Joined := by
  cases saved with
  | none => exact joined
  | some stack => exact joined.restored (of_decide_eq_true free)

theorem Joined.apart (joined : host.Joined) : host.Apart := by
  induction joined with
  | fresh => exact ⟨List.nodup_nil, nofun⟩
  | step _ single ih => exact ih.step single
  | restored _ adopts ih => exact ih.restoring adopts
  | @dropped host place _ ih =>
      have fewer : (contexts { host with executions := host.executions.eraseIdx place }).Sublist
          host.contexts := (List.eraseIdx_sublist ..).map Stack.context
      exact ⟨ih.distinct.sublist fewer, fun context among => ih.counted context (fewer.subset among)⟩

theorem newStacks_collide {restored : Stack}
    (done : host.engine.restore stack.unbound = .ok (engine, restored))
    (idle : ¬ stack.isActive = true)
    (ahead : host.engine.ids.lastContext < stack.context.number) (program : ProgramId) :
    ¬ ((List.replicate (stack.context.number - host.engine.ids.lastContext)
      (Operation.newStack program)).foldl Host.step (host.restoring stack)).contexts.Nodup := by
  obtain ⟨context, last⟩ := Engine.restore_keeps_context done
  rw [if_neg idle] at last
  rw [(contexts_newStacks ..).1, restoring_ok done]
  intro distinct
  refine (List.nodup_append.mp distinct).2.2 stack.context ?_ stack.context ?_ rfl
  · simp [contexts, context]
  · refine List.mem_map.mpr ⟨stack.context.number - host.engine.ids.lastContext - 1, ?_, ?_⟩
    · exact List.mem_range.mpr (by omega)
    · rw [last]
      have reached : host.engine.ids.lastContext +
          (stack.context.number - host.engine.ids.lastContext - 1) + 1 = stack.context.number := by
        omega
      rw [reached]

end Host

/-- The stacks on a host have contexts of their own as long as every stack that is loaded may be
adopted. A stack that may not has the context of another one now, or of one that may be made later.
-/
theorem contexts_distinct {host : Host} (joined : host.Joined) :
    host.contexts.Nodup ∧ ∀ stack, (host.engine.restore stack.unbound).isOk = true →
      ((∀ operations : List Operation, (∀ operation ∈ operations, operation.isLinear = true) →
        (operations.foldl Host.step (host.restoring stack)).contexts.Nodup) ↔
          host.Adopts stack) := by
  refine ⟨joined.apart.distinct, fun stack restores => ⟨fun distinct => ?_, fun adopts => ?_⟩⟩
  · cases done : host.engine.restore stack.unbound with
    | error error =>
        rw [done] at restores
        cases restores
    | ok result =>
        obtain ⟨engine, restored⟩ := result
        refine ⟨fun among => ?_, Decidable.or_iff_not_imp_left.mpr fun idle => ?_⟩
        · have now : (host.restoring stack).contexts.Nodup := distinct [] nofun
          rw [Host.restoring_ok done, Host.contexts, List.map_append] at now
          refine (List.nodup_append.mp now).2.2 stack.context among stack.context ?_ rfl
          simp [(Engine.restore_keeps_context done).1]
        · refine Nat.le_of_not_lt fun ahead => ?_
          refine Host.newStacks_collide done idle ahead stack.program (distinct _ ?_)
          intro operation among
          rw [List.eq_of_mem_replicate among]
          rfl
  · intro operations linear
    have apart := joined.apart.restoring adopts
    generalize host.restoring stack = host at apart ⊢
    induction operations generalizing host with
    | nil => exact apart.distinct
    | cons operation rest ih =>
        refine ih (fun other among => linear other (List.mem_cons_of_mem _ among)) _ (apart.step ?_)
        rintro place rfl
        cases linear _ (List.mem_cons_self ..)

def tankJoined : Host :=
  let saved := (Host.after twoCallers).executions
  let fresh := Host.after (twoCallers.filter Operation.isSetup)
  let more := (saved[1]?.elim fresh fresh.restoring).step (.newStack ⟨1⟩)
  saved[0]?.elim more more.restoring

theorem contexts_distinct_of_tank :
    tankJoined.contexts = [⟨2⟩, ⟨3⟩, ⟨1⟩] ∧ tankJoined.contexts.Nodup ∧
      ∀ stack, (tankJoined.engine.restore stack.unbound).isOk = true →
        ((∀ operations : List Operation, (∀ operation ∈ operations, operation.isLinear = true) →
          (operations.foldl Host.step (tankJoined.restoring stack)).contexts.Nodup) ↔
            tankJoined.Adopts stack) := by
  have joined : tankJoined.Joined := by
    have set : (Host.after (twoCallers.filter Operation.isSetup)).Joined :=
      Host.joined_after fun operation among => (List.mem_filter.mp among).2
    exact .loaded (.step (.loaded set (by decide +kernel)) nofun) (by decide +kernel)
  exact ⟨by decide +kernel, contexts_distinct joined⟩

/-- An idle stack is loaded on a fresh engine, which then makes one of its own. -/
def idleJoined : Host :=
  let idle := [.compile "idle" "int main() { return 1; }", .newStack ⟨1⟩]
  let fresh := Host.after (idle.filter Operation.isSetup)
  ((Host.after idle).executions[0]?.elim fresh fresh.restoring).step (.newStack ⟨1⟩)

/-- A fresh engine makes a stack, and loads one that waits in a synchronized method. Then the method is
called on the new stack. -/
def tankEntered : Host :=
  let fresh := Host.after (twoCallers.filter Operation.isSetup ++ [.newInstance "Tank", .newStack ⟨1⟩])
  ((Host.after twoCallers).executions[0]?.elim fresh fresh.restoring).step
    (.callMethod 0 ⟨0, 0⟩ "fill" [] .unlimited)

/-- Either way two stacks have one context, and can be in a synchronized method together. -/
theorem contexts_shared : idleJoined.contexts = [⟨1⟩, ⟨1⟩] ∧
    tankEntered.executions.map (fun stack => (stack.context, stack.root.bodiesOf "Tank")) =
      [(⟨1⟩, 1), (⟨1⟩, 1)] ∧
    tankEntered.engine.world.guards.guard? "Tank" = some ⟨some ⟨1⟩, 2, []⟩ := by
  decide +kernel

end ScriptEngine
