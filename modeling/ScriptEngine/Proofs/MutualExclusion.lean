import ScriptEngine.Proofs.Effects
import ScriptEngine.Proofs.Suspended
/-! Mutual exclusion. Every synchronized method whose body runs on some stack is an acquisition of
its guard that the context of the stack has not released, and a guard has one holder. -/

namespace ScriptEngine

namespace Guard

def depthOf (guard : Guard) (context : ContextId) : Nat :=
  if guard.holder = some context then guard.depth else 0

variable {guard after : Guard} {context other : ContextId} {limit : Nat}

theorem tryAcquire_taken (taken : guard.tryAcquire context limit = (true, after)) :
    after.depthOf context = guard.depthOf context + 1 := by
  cases held : guard.holder with
  | none =>
      simp only [tryAcquire, held, Prod.mk.injEq, true_and] at taken
      simp [depthOf, held, ← taken]
  | some holder =>
      by_cases own : holder = context
      · simp only [tryAcquire, held, own, if_true, Prod.mk.injEq, true_and] at taken
        simp [depthOf, held, own, ← taken]
      · simp only [tryAcquire, held, if_neg own] at taken
        split at taken <;> cases taken

theorem tryAcquire_refused (refused : guard.tryAcquire context limit = (false, after)) :
    after.holder = guard.holder ∧ after.depth = guard.depth := by
  cases held : guard.holder with
  | none => simp [tryAcquire, held] at refused
  | some holder =>
      by_cases own : holder = context
      · simp [tryAcquire, held, own] at refused
      · simp only [tryAcquire, held, if_neg own] at refused
        split at refused
        · cases refused
          exact ⟨rfl, rfl⟩
        · cases refused
          exact ⟨held, rfl⟩

theorem handOver_depthOf (context : ContextId) : guard.handOver.depthOf context = 0 := by
  unfold depthOf
  split <;> rfl

theorem release_depthOf : guard.depthOf context ≤ (guard.release context).2.depthOf context + 1 := by
  unfold release
  split
  · exact Nat.le_succ _
  · rename_i held
    simp only [Bool.or_eq_true, decide_eq_true_eq, not_or, Decidable.not_not] at held
    obtain ⟨holds, deep⟩ := held
    split
    · rename_i last
      simp [depthOf, holds, last]
    · simp only [depthOf, holds, if_true]
      omega

theorem tryAcquire_depthOf_other (different : other ≠ context) :
    (guard.tryAcquire context limit).2.depthOf other = guard.depthOf other := by
  cases held : guard.holder with
  | none => simp [tryAcquire, depthOf, held, Ne.symm different]
  | some holder =>
      by_cases own : holder = context
      · simp [tryAcquire, depthOf, held, own, Ne.symm different]
      · simp only [tryAcquire, held, if_neg own]
        split <;> simp [depthOf, held]

theorem release_depthOf_other (different : other ≠ context) :
    (guard.release context).2.depthOf other = guard.depthOf other := by
  unfold release
  split
  · rfl
  · rename_i held
    simp only [Bool.or_eq_true, decide_eq_true_eq, not_or, Decidable.not_not] at held
    obtain ⟨holds, deep⟩ := held
    split
    · rw [handOver_depthOf]
      simp [depthOf, holds, Ne.symm different]
    · simp [depthOf, holds, Ne.symm different]

theorem withdraw_depthOf_other (different : other ≠ context) :
    (guard.withdraw context).depthOf other = guard.depthOf other := by
  unfold withdraw
  dsimp only
  split
  · rename_i handed
    simp only [Bool.and_eq_true, decide_eq_true_eq] at handed
    rw [handOver_depthOf]
    simp [depthOf, handed.1, Ne.symm different]
  · rfl

end Guard

namespace GuardTable

def depthOf (table : GuardTable) (context : ContextId) (className : String) : Nat :=
  ((table.guard? className).getD {}).depthOf context

variable {table after : GuardTable} {context other : ContextId} {className : String}

theorem depthOf_put (guard : Guard) (name : String) :
    depthOf { table with guards := put className guard table.guards } context name =
      if name = className then guard.depthOf context else table.depthOf context name := by
  unfold depthOf guard?
  by_cases same : name = className
  · rw [if_pos same, same, lookup_put_self, Option.getD_some]
  · rw [if_neg same, lookup_put_of_ne same]

theorem depthOf_put_guard {guard : Guard}
    (same : guard.depthOf context = table.depthOf context className) (name : String) :
    depthOf { table with guards := put className guard table.guards } context name =
      table.depthOf context name := by
  rw [depthOf_put]
  split
  · rename_i named
    rw [named, same]
  · rfl

theorem tryLock_taken (taken : table.tryLock className context = (true, after)) (name : String) :
    after.depthOf context name =
      table.depthOf context name + if name = className then 1 else 0 := by
  unfold tryLock at taken
  cases acquired : ((table.guard? className).getD {}).tryAcquire context table.maxWaiters with
  | mk allowed guard =>
      rw [acquired] at taken
      cases taken
      rw [depthOf_put, Guard.tryAcquire_taken acquired]
      split
      · rename_i named
        rw [named, depthOf]
      · rfl

theorem tryLock_refused (refused : table.tryLock className context = (false, after))
    (name : String) : after.depthOf context name = table.depthOf context name := by
  unfold tryLock at refused
  cases acquired : ((table.guard? className).getD {}).tryAcquire context table.maxWaiters with
  | mk allowed guard =>
      rw [acquired] at refused
      cases refused
      obtain ⟨holder, depth⟩ := Guard.tryAcquire_refused acquired
      refine depthOf_put_guard ?_ name
      simp only [depthOf, Guard.depthOf, holder, depth]

theorem tryLock_depthOf_other (different : other ≠ context) (name : String) :
    (table.tryLock className context).2.depthOf other name = table.depthOf other name :=
  depthOf_put_guard (Guard.tryAcquire_depthOf_other different) name

theorem unlock_depthOf (name : String) :
    table.depthOf context name ≤ (table.unlock className context).2.depthOf context name +
      if name = className then 1 else 0 := by
  unfold unlock
  cases known : table.guard? className with
  | none => exact Nat.le_add_right ..
  | some guard =>
      dsimp only
      rw [depthOf_put]
      split
      · rename_i named
        rw [named, depthOf, known]
        exact Guard.release_depthOf
      · exact Nat.le_refl _

theorem unlock_depthOf_other (different : other ≠ context) (name : String) :
    (table.unlock className context).2.depthOf other name = table.depthOf other name := by
  unfold unlock
  cases known : table.guard? className with
  | none => rfl
  | some guard =>
      refine depthOf_put_guard ?_ name
      rw [Guard.release_depthOf_other different, depthOf, known]
      rfl

theorem guard?_withdraw (name : String) : (table.withdraw context).guard? name =
    (table.guard? name).map fun guard => guard.withdraw context := by
  unfold withdraw guard?
  dsimp only
  induction table.guards with
  | nil => rfl
  | cons entry rest ih =>
      obtain ⟨key, guard⟩ := entry
      simp only [List.map_cons, List.lookup_cons]
      cases name == key with
      | true => rfl
      | false => exact ih

theorem withdraw_depthOf_other (different : other ≠ context) (name : String) :
    (table.withdraw context).depthOf other name = table.depthOf other name := by
  unfold depthOf
  rw [guard?_withdraw]
  cases table.guard? name with
  | none => rfl
  | some guard => exact Guard.withdraw_depthOf_other different

end GuardTable

theorem count_concat (held : List String) (className name : String) :
    (held ++ [className]).count name = held.count name + if name = className then 1 else 0 := by
  rw [List.count_append, List.count_singleton]
  by_cases same : name = className
  · simp [same]
  · simp [same, Ne.symm same]

def Tally.acquired (context : ContextId) : Tally context where
  holds := fun held _ table => ∀ className, held.count className ≤ table.depthOf context className
  taken := by
    intro held awaited className table after holds _ taken name
    have before := holds name
    rw [GuardTable.tryLock_taken taken, count_concat]
    exact Nat.add_le_add_right before _
  refused := by
    intro held awaited className table after holds _ refused name
    rw [GuardTable.tryLock_refused refused]
    exact holds name
  released := by
    intro held className table holds name
    have before := holds name
    have released : table.depthOf context name ≤
        (table.unlock className context).2.depthOf context name +
          if name = className then 1 else 0 :=
      table.unlock_depthOf name
    rw [count_concat] at before
    exact Nat.le_of_add_le_add_right (Nat.le_trans before released)
  lenient := True
  dropped := by
    intro _ held more awaited table holds name
    have before := holds name
    rw [List.count_append] at before
    exact Nat.le_of_add_right_le before

theorem Effects.depthOf_other {code : Code} {context other : ContextId} {world changed : World}
    (effects : Effects code context world changed) (different : other ≠ context)
    (className : String) :
    changed.guards.depthOf other className = world.guards.depthOf other className := by
  induction effects with
  | refl => rfl
  | tail _ effect ih =>
      rw [← ih]
      cases effect with
      | stored | allocated | bound | kept => rfl
      | locked => exact GuardTable.tryLock_depthOf_other different className
      | unlocked => exact GuardTable.unlock_depthOf_other different className

namespace Engine

variable {engine : Engine} {stack : Stack} {gate : Gate}

theorem drive_effects (engine : Engine) (stack : Stack) (gate : Gate) :
    Effects engine.code stack.context engine.world (engine.drive stack gate).engine.world := by
  have driving := drive_driving engine stack gate
  generalize engine.drive stack gate = driven at driving ⊢
  cases driving with
  | refused | unentered => exact .refl
  | @entered entry function kept found =>
      have reached := run_moves engine.code stack.context engine.code.maxCallDepth
        (entry.invocation function stack.program) stack.root ⟨engine.world, gate⟩
      generalize Invocation.run _ _ _ _ _ _ = ended at reached ⊢
      obtain ⟨progress, after⟩ := ended
      cases progress <;> exact reached.effects

theorem drive_context (engine : Engine) (stack : Stack) (gate : Gate) :
    (engine.drive stack gate).stack.context = stack.context := by
  have driving := drive_driving engine stack gate
  generalize engine.drive stack gate = driven at driving ⊢
  cases driving with
  | refused | unentered => rfl
  | entered =>
      generalize Invocation.run _ _ _ _ _ _ = ended
      obtain ⟨progress, after⟩ := ended
      cases progress <;> rfl

end Engine

/-- The context of a stack holds the guard of a class as often as frames of the stack need it. -/
def Stack.Holds (stack : Stack) (table : GuardTable) : Prop :=
  ∀ className, stack.root.heldGuards.count className ≤ table.depthOf stack.context className

structure Advances (table : GuardTable) (stack : Stack) (after : GuardTable) (left : Stack) : Prop
    where
  context : left.context = stack.context
  holds : left.Holds after
  others : ∀ other, other ≠ stack.context → ∀ className,
    after.depthOf other className = table.depthOf other className

theorem Engine.drive_advances {engine : Engine} {past : Past} {stack : Stack}
    (fits : past.Fits engine.code) (shape : CallFrame past stack.root)
    (holds : stack.Holds engine.world.guards) (gate : Gate) :
    Advances engine.world.guards stack (engine.drive stack gate).engine.world.guards
      (engine.drive stack gate).stack where
  context := drive_context engine stack gate
  holds := by
    have kept := (drive_kept (.acquired stack.context) fits shape
      ⟨holds, Or.inl True.intro⟩ gate).2
    rw [Stack.Holds, drive_context]
    exact kept
  others := fun other different className =>
    (drive_effects engine stack gate).depthOf_other different className

theorem Engine.Drives.advances {engine : Engine} {past : Past} {stack : Stack} {gate : Gate}
    {driven : Driven} (drives : engine.Drives stack gate driven) (fits : past.Fits engine.code)
    (shape : CallFrame past stack.root) (holds : stack.Holds engine.world.guards) :
    Advances engine.world.guards stack driven.engine.world.guards driven.stack := by
  cases drives with
  | refused => exact ⟨rfl, holds, fun _ _ _ => rfl⟩
  | started entry =>
      have fresh : Stack.Holds { stack with entry := some entry, root := {}, lastError := none }
          engine.world.guards := by
        intro className
        simp
      obtain ⟨context, holds, others⟩ := drive_advances fits .fresh fresh gate
      exact ⟨context, holds, others⟩
  | resumed => exact drive_advances fits shape holds gate

theorem Engine.abort_advances (engine : Engine) (stack : Stack) :
    Advances engine.world.guards stack (engine.abort stack).1.world.guards
      (engine.abort stack).2 where
  context := rfl
  holds := by
    intro className
    simp [Engine.abort, Stack.finish]
  others := by
    intro other different className
    have unlocked : ∀ (held : List String) (table : GuardTable),
        (held.foldl (fun guards owner => (guards.unlock owner stack.context).2) table).depthOf
          other className = table.depthOf other className := by
      intro held
      induction held with
      | nil => exact fun _ => rfl
      | cons owner rest ih =>
          intro table
          rw [List.foldl_cons, ih, GuardTable.unlock_depthOf_other different]
    exact (GuardTable.withdraw_depthOf_other different className).trans (unlocked _ _)

theorem Engine.compile_keeps (engine : Engine) (name source : String) :
    (engine.compile name source).2.ids.lastContext = engine.ids.lastContext ∧
      (engine.compile name source).2.world = engine.world := by
  unfold Engine.compile Compiler.compile
  dsimp only
  split <;> rename_i compiled
  · split at compiled
    · cases compiled
    · split at compiled <;> cases compiled
      exact ⟨rfl, rfl⟩
  · split at compiled
    · cases compiled
      exact ⟨rfl, rfl⟩
    · split at compiled <;> cases compiled
      exact ⟨rfl, rfl⟩

structure Host.Exclusive (host : Host) : Prop where
  contexts : (host.executions.map Stack.context).Nodup
  numbered : ∀ stack ∈ host.executions, stack.context.number ≤ host.engine.ids.lastContext
  holds : ∀ stack ∈ host.executions, stack.Holds host.engine.world.guards

namespace Host

variable {host : Host} {known : List Function}

theorem Exclusive.congr {after : Host} (exclusive : host.Exclusive)
    (executions : after.executions = host.executions)
    (contexts : after.engine.ids.lastContext = host.engine.ids.lastContext)
    (guards : after.engine.world.guards.guards = host.engine.world.guards.guards) :
    after.Exclusive where
  contexts := executions ▸ exclusive.contexts
  numbered := by
    rw [executions, contexts]
    exact exclusive.numbered
  holds := by
    rw [executions]
    intro stack among className
    have before := exclusive.holds stack among className
    unfold GuardTable.depthOf GuardTable.guard? at before ⊢
    rw [guards]
    exact before

theorem Exclusive.apart (exclusive : host.Exclusive) {place spot : Nat} {stack other : Stack}
    (found : host.executions[place]? = some stack) (another : host.executions[spot]? = some other)
    (different : spot ≠ place) : other.context ≠ stack.context := by
  intro contexts
  have first : (host.executions.map Stack.context)[spot]? = some stack.context := by
    rw [List.getElem?_map, another, ← contexts]
    rfl
  have second : (host.executions.map Stack.context)[place]? = some stack.context := by
    rw [List.getElem?_map, found]
    rfl
  have reached : spot < (host.executions.map Stack.context).length := by
    rw [List.length_map]
    exact (List.getElem?_eq_some_iff.mp another).1
  exact different
    ((List.getElem?_inj reached exclusive.contexts).mp (first.trans second.symm))

theorem Exclusive.elsewhere (exclusive : host.Exclusive) {place : Nat} {stack left other : Stack}
    (found : host.executions[place]? = some stack)
    (among : other ∈ host.executions.set place left) :
    other = left ∨ other ∈ host.executions ∧ other.context ≠ stack.context := by
  obtain ⟨spot, there⟩ := List.mem_iff_getElem?.mp among
  rw [List.getElem?_set] at there
  split at there
  · split at there
    · exact Or.inl (Option.some.inj there).symm
    · cases there
  · rename_i apart
    exact Or.inr ⟨List.mem_of_getElem? there, exclusive.apart found there (Ne.symm apart)⟩

theorem Exclusive.replaced {engine : Engine} {place : Nat} {stack left : Stack}
    (exclusive : host.Exclusive) (found : host.executions[place]? = some stack)
    (contexts : engine.ids.lastContext = host.engine.ids.lastContext)
    (advances : Advances host.engine.world.guards stack engine.world.guards left) :
    Host.Exclusive ⟨engine, host.executions.set place left⟩ := by
  obtain ⟨inside, held⟩ := List.getElem?_eq_some_iff.mp found
  have same : (host.executions.set place left).map Stack.context =
      host.executions.map Stack.context := by
    rw [List.map_set, advances.context]
    refine List.ext_getElem? fun other => ?_
    rw [List.getElem?_set]
    split
    · rename_i placed
      subst placed
      simp [inside, held]
    · rfl
  refine ⟨?_, ?_, ?_⟩
  · dsimp only
    rw [same]
    exact exclusive.contexts
  · intro other among
    dsimp only at among ⊢
    rw [contexts]
    rcases exclusive.elsewhere found among with rfl | ⟨kept, _⟩
    · rw [advances.context]
      exact exclusive.numbered stack (List.mem_of_getElem? found)
    · exact exclusive.numbered other kept
  · intro other among
    rcases exclusive.elsewhere found among with rfl | ⟨kept, different⟩
    · exact advances.holds
    · intro className
      rw [advances.others other.context different className]
      exact exclusive.holds other kept className

theorem Exclusive.driven (formed : host.Formed known) (exclusive : host.Exclusive) {gate : Gate}
    {run : Stack → Driven} (drives : ∀ stack, host.engine.Drives stack gate (run stack))
    (place : Nat) : (host.drive place run).Exclusive := by
  unfold drive
  split
  · rename_i stack found
    have among := List.mem_of_getElem? found
    have contexts : (run stack).engine.ids.lastContext = host.engine.ids.lastContext := by
      rw [(drives stack).keeps]
    exact exclusive.replaced found contexts ((drives stack).advances formed.knows.fits
      (formed.executions stack among).shape (exclusive.holds stack among))
  · exact exclusive

theorem Exclusive.created (exclusive : host.Exclusive) (program : ProgramId) :
    (host.step (.newStack program)).Exclusive where
  contexts := by
    simp only [step, Engine.newStack, Identities.nextContext, List.map_append, List.map_cons,
      List.map_nil]
    refine List.nodup_append.mpr ⟨exclusive.contexts, List.pairwise_singleton .., ?_⟩
    intro context old new among same
    obtain ⟨stack, kept, rfl⟩ := List.mem_map.mp old
    have numbered := exclusive.numbered stack kept
    rw [same, List.mem_singleton.mp among] at numbered
    exact Nat.not_succ_le_self _ numbered
  numbered := by
    intro stack among
    rcases List.mem_append.mp among with kept | new
    · exact Nat.le_succ_of_le (exclusive.numbered stack kept)
    · rw [List.mem_singleton.mp new]
      exact Nat.le_refl _
  holds := by
    intro stack among
    rcases List.mem_append.mp among with kept | new
    · exact exclusive.holds stack kept
    · rw [List.mem_singleton.mp new]
      intro className
      simp [Engine.newStack]

theorem step_exclusive (formed : host.Formed known) (exclusive : host.Exclusive)
    (operation : Operation) (linear : operation.isLinear = true) :
    (host.step operation).Exclusive := by
  cases operation with
  | register decl =>
      simp only [step, Engine.register]
      cases host.engine.code.classes.register decl <;> exact exclusive.congr rfl rfl rfl
  | compile name source =>
      obtain ⟨contexts, world⟩ := Engine.compile_keeps host.engine name source
      exact exclusive.congr rfl contexts (congrArg (fun world => world.guards.guards) world)
  | unload program =>
      simp only [step, Engine.unload]
      cases host.engine.code.programs.get? program <;> exact exclusive.congr rfl rfl rfl
  | set setting value => cases setting <;> exact exclusive.congr rfl rfl rfl
  | newInstance className =>
      simp only [step, Engine.newInstance]
      cases host.engine.code.classes.members? className <;> exact exclusive.congr rfl rfl rfl
  | bindInstance program handle =>
      simp only [step, Engine.bindInstance]
      split
      · exact exclusive
      · split
        · exact exclusive
        · exact exclusive.congr rfl rfl rfl
  | changeHeap change => exact exclusive.congr rfl rfl rfl
  | newStack program => exact exclusive.created program
  | call place name args gate =>
      exact exclusive.driven formed (fun stack => Engine.start_drives ..) place
  | callMethod place handle name args gate =>
      exact exclusive.driven formed (fun stack => Engine.callMethod_drives ..) place
  | resume place gate => exact exclusive.driven formed (fun _ => .resumed) place
  | abort place =>
      simp only [step]
      split
      · rename_i stack found
        exact exclusive.replaced found rfl (Engine.abort_advances host.engine stack)
      · exact exclusive
  | copy | reload => cases linear

theorem after_exclusive (operations : List Operation)
    (linear : ∀ operation ∈ operations, operation.isLinear = true) :
    (after operations).Exclusive := by
  induction operations using List.reverseRecOn with
  | nil =>
      exact ⟨List.nodup_nil, nofun, nofun⟩
  | append_singleton operations operation ih =>
      obtain ⟨known, formed⟩ := after_formed operations
      rw [after_concat]
      have before := ih fun earlier among => linear earlier (List.mem_append_left _ among)
      exact step_exclusive formed before operation (linear operation (by simp))

end Host

def FrameState.runsBodyOf (className : String) : FrameState → Bool
  | .call held =>
      held.kind = .dispatched true && held.step = .runBody && held.owner = some className
  | .fresh | .block _ | .wait _ | .eval => false

mutual

/-- How many synchronized methods of a class have their bodies run in a frame tree. -/
def Frame.bodiesOf (className : String) : Frame → Nat
  | ⟨state, _, _, children⟩ =>
      (if state.runsBodyOf className then 1 else 0) + Frame.bodiesIn className children

def Frame.bodiesIn (className : String) : List (Nat × Frame) → Nat
  | [] => 0
  | (_, child) :: rest => child.bodiesOf className + Frame.bodiesIn className rest

end

theorem Call.count_heldGuard (call : Call) (className : String) :
    call.heldGuard?.toList.count className =
      if (FrameState.call call).runsBodyOf className then 1 else 0 := by
  have synchronized : call.kind.isSynchronized = true ↔ call.kind = .dispatched true := by
    cases call.kind <;> simp [CallKind.isSynchronized]
  by_cases holds : call.kind = .dispatched true ∧ call.step = .runBody
  · have holding : call.holdsGuard = true := by
      rw [Call.holdsGuard, synchronized.mpr holds.1]
      simp [holds.2]
    cases owner : call.owner <;>
      simp [Call.heldGuard?, holding, FrameState.runsBodyOf, holds, owner, List.count_singleton]
  · have without : ¬ call.holdsGuard = true := by
      simpa [Call.holdsGuard, synchronized] using holds
    simp [Call.heldGuard?, without, FrameState.runsBodyOf, holds]

mutual

theorem Frame.count_heldGuards (className : String) : ∀ frame : Frame,
    frame.heldGuards.count className = frame.bodiesOf className
  | ⟨.call call, vars, temps, children⟩ => by
      rw [heldGuards_call, List.count_append, Call.count_heldGuard,
        count_heldGuardsIn className children, bodiesOf]
  | ⟨.fresh, vars, temps, children⟩ | ⟨.block _, vars, temps, children⟩
  | ⟨.wait _, vars, temps, children⟩ | ⟨.eval, vars, temps, children⟩ => by
      simp [heldGuards, count_heldGuardsIn className children, bodiesOf, FrameState.runsBodyOf]

theorem Frame.count_heldGuardsIn (className : String) : ∀ children : List (Nat × Frame),
    (heldGuardsIn children).count className = bodiesIn className children
  | [] => rfl
  | (slot, child) :: rest => by
      rw [heldGuardsIn, List.count_append, count_heldGuards className child,
        count_heldGuardsIn className rest, bodiesIn]

end

/-- However the host interleaves the calls on its stacks, as long as it uses each of them linearly
and loads none: a stack on which bodies of synchronized methods of a class run holds the guard of
the class at least as often, and no other stack runs one. -/
theorem synchronized_bodies_exclusive (operations : List Operation)
    (linear : ∀ operation ∈ operations, operation.isLinear = true) (place : Nat) (stack : Stack)
    (found : (Host.after operations).executions[place]? = some stack) (className : String)
    (runs : 0 < stack.root.bodiesOf className) :
    (∃ guard, (Host.after operations).engine.world.guards.guard? className = some guard ∧
      guard.holder = some stack.context ∧ stack.root.bodiesOf className ≤ guard.depth) ∧
    ∀ spot other, (Host.after operations).executions[spot]? = some other → spot ≠ place →
      other.root.bodiesOf className = 0 := by
  have exclusive := Host.after_exclusive operations linear
  generalize Host.after operations = host at exclusive found ⊢
  have held := exclusive.holds stack (List.mem_of_getElem? found) className
  rw [Frame.count_heldGuards] at held
  have deep := Nat.lt_of_lt_of_le runs held
  unfold GuardTable.depthOf Guard.depthOf at held deep
  cases known : host.engine.world.guards.guard? className with
  | none => simp [known] at deep
  | some guard =>
      simp only [known, Option.getD_some] at held deep
      have holder : guard.holder = some stack.context := by
        by_cases own : guard.holder = some stack.context
        · exact own
        · simp [own] at deep
      rw [if_pos holder] at held
      refine ⟨⟨guard, rfl, holder, held⟩, fun spot other another apart => ?_⟩
      have bound := exclusive.holds other (List.mem_of_getElem? another) className
      rw [Frame.count_heldGuards] at bound
      have different : guard.holder ≠ some other.context := by
        rw [holder]
        exact fun same => exclusive.apart found another apart (Option.some.inj same).symm
      simp only [GuardTable.depthOf, Guard.depthOf, known, Option.getD_some, if_neg different]
        at bound
      exact Nat.le_zero.mp bound

def twoCallers : List Operation :=
  [.register { name := "Tank" },
    .compile "tank" "class Tank { synchronized int fill() { wait(1); return 1; } }",
    .newInstance "Tank", .newStack ⟨1⟩, .newStack ⟨1⟩,
    .callMethod 0 ⟨0, 0⟩ "fill" [] .unlimited, .callMethod 1 ⟨0, 0⟩ "fill" [] .unlimited]

theorem synchronized_bodies_exclusive_of_two :
    ∃ stack, (Host.after twoCallers).executions[0]? = some stack ∧
      0 < stack.root.bodiesOf "Tank" ∧
      (∃ guard, (Host.after twoCallers).engine.world.guards.guard? "Tank" = some guard ∧
        guard.holder = some stack.context ∧ stack.root.bodiesOf "Tank" ≤ guard.depth) ∧
      ∀ spot other, (Host.after twoCallers).executions[spot]? = some other → spot ≠ 0 →
        other.root.bodiesOf "Tank" = 0 := by
  have checked : ((Host.after twoCallers).executions[0]?.map fun stack =>
      stack.root.bodiesOf "Tank") = some 1 := by
    decide +kernel
  obtain ⟨stack, found, count⟩ := Option.map_eq_some_iff.mp checked
  have runs : 0 < stack.root.bodiesOf "Tank" := count ▸ Nat.one_pos
  exact ⟨stack, found, runs,
    synchronized_bodies_exclusive twoCallers (by decide) 0 stack found "Tank" runs⟩

end ScriptEngine
