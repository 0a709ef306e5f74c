import ScriptEngine.Proofs.Rebinding
import ScriptEngine.Proofs.Rebuilding
import ScriptEngine.Proofs.SinglePath
/-! Taking guards again. A stack that is restored asks for the guard of each of its calls once more.
It gets those that are free or its own; where somebody else has come first it is queued, and goes on
without. Stacks that hold different guards do not meet, so that loading them builds one table of
guards, whichever comes first. -/

namespace ScriptEngine

namespace Guard

variable {guard : Guard} {context other : ContextId}

def FreeFor (guard : Guard) (context : ContextId) : Prop :=
  ∀ holder, guard.holder = some holder → holder = context

theorem freeFor_new (context : ContextId) : FreeFor {} context := by
  intro _ held
  cases held

theorem tryAcquire_freeFor (free : guard.FreeFor context) (limit : Nat) :
    (guard.tryAcquire context limit).2.holder = some context ∧
      (guard.tryAcquire context limit).2.depthOf context = guard.depthOf context + 1 ∧
      (guard.tryAcquire context limit).2.waiters.Sublist guard.waiters := by
  cases held : guard.holder with
  | none => simp [tryAcquire, depthOf, held]
  | some holder =>
      obtain rfl := free holder held
      simp [tryAcquire, depthOf, held]

theorem tryAcquire_of_taken (taken : guard.holder = some other) (different : other ≠ context)
    (limit : Nat) : (guard.tryAcquire context limit).2.holder = some other ∧
      (guard.tryAcquire context limit).2.depth = guard.depth := by
  simp only [tryAcquire, taken, if_neg different]
  split
  · exact ⟨rfl, rfl⟩
  · exact ⟨taken, rfl⟩

end Guard

namespace GuardTable

theorem guard?_tryLock (table : GuardTable) (className : String) (context : ContextId)
    (name : String) : (table.tryLock className context).2.guard? name =
      if name = className then
        some ((table.guardOf className).tryAcquire context table.maxWaiters).2
      else table.guard? name := by
  simp only [tryLock, guard?]
  split
  · rename_i same
    rw [same, lookup_put_self]
    rfl
  · rename_i different
    rw [lookup_put_of_ne different]

end GuardTable

namespace Restoration

variable {context : ContextId} {className : String}

theorem guard?_retake_of_not_mem {held : List String} (apart : className ∉ held)
    (table : GuardTable) : (retake context held table).guard? className = table.guard? className := by
  induction held generalizing table with
  | nil => rfl
  | cons owner rest ih =>
      rw [List.mem_cons, not_or] at apart
      exact (ih apart.2 _).trans ((table.guard?_tryLock ..).trans (if_neg apart.1))

theorem isSome_guard?_retake {held : List String} {table : GuardTable}
    (asked : className ∈ held ∨ (table.guard? className).isSome = true) :
    ((retake context held table).guard? className).isSome = true := by
  induction held generalizing table with
  | nil => exact asked.resolve_left List.not_mem_nil
  | cons owner rest ih =>
      refine ih ?_
      rw [GuardTable.guard?_tryLock]
      split
      · exact Or.inr rfl
      · rename_i different
        exact asked.imp_left fun among => (List.mem_cons.mp among).resolve_left different

theorem retake_freeFor {held : List String} {table : GuardTable}
    (free : (table.guardOf className).FreeFor context) :
    (className ∈ held ∨ (table.guardOf className).holder = some context →
      ((retake context held table).guardOf className).holder = some context) ∧
    ((retake context held table).guardOf className).depthOf context =
      (table.guardOf className).depthOf context + held.count className ∧
    ((retake context held table).guardOf className).waiters.Sublist
      (table.guardOf className).waiters := by
  induction held generalizing table with
  | nil => exact ⟨fun asked => asked.resolve_left List.not_mem_nil, rfl, .refl _⟩
  | cons owner rest ih =>
      have behind : (table.tryLock owner context).2.guardOf className =
          if className = owner then
            ((table.guardOf owner).tryAcquire context table.maxWaiters).2
          else table.guardOf className := GuardTable.guardOf_tryLock className
      by_cases same : className = owner
      · subst same
        rw [if_pos rfl] at behind
        obtain ⟨taken, deeper, fewer⟩ := Guard.tryAcquire_freeFor free table.maxWaiters
        rw [← behind] at taken deeper fewer
        obtain ⟨holder, depth, waiters⟩ := ih fun other held =>
          Option.some.inj (held.symm.trans taken)
        refine ⟨fun _ => holder (Or.inr taken), depth.trans ?_, waiters.trans fewer⟩
        rw [deeper, List.count_cons_self, Nat.add_assoc, Nat.add_comm 1]
      · rw [if_neg same] at behind
        obtain ⟨holder, depth, waiters⟩ := ih (behind ▸ free)
        rw [behind] at holder depth waiters
        refine ⟨fun asked => holder (asked.imp_left fun among => ?_), depth.trans ?_, waiters⟩
        · exact (List.mem_cons.mp among).resolve_left same
        · rw [List.count_cons_of_ne (Ne.symm same)]

theorem retake_of_taken {held : List String} {table : GuardTable} {other : ContextId}
    (taken : (table.guardOf className).holder = some other) (different : other ≠ context) :
    ((retake context held table).guardOf className).holder = some other ∧
      ((retake context held table).guardOf className).depth = (table.guardOf className).depth := by
  induction held generalizing table with
  | nil => exact ⟨taken, rfl⟩
  | cons owner rest ih =>
      have first : ((table.tryLock owner context).2.guardOf className).holder = some other ∧
          ((table.tryLock owner context).2.guardOf className).depth =
            (table.guardOf className).depth := by
        rw [GuardTable.guardOf_tryLock]
        split
        · rename_i same
          subst same
          exact Guard.tryAcquire_of_taken taken different _
        · exact ⟨taken, rfl⟩
      obtain ⟨holder, depth⟩ := ih first.1
      exact ⟨holder, depth.trans first.2⟩

theorem guard?_retake_of_free {held : List String} {table : GuardTable}
    (free : table.guardOf className = {}) (asked : className ∈ held) :
    (retake context held table).guard? className =
      some ⟨some context, held.count className, []⟩ := by
  obtain ⟨guard, known⟩ := Option.isSome_iff_exists.mp
    (@isSome_guard?_retake context className held table (Or.inl asked))
  have same : (retake context held table).guardOf className = guard := by
    rw [GuardTable.guardOf, known, Option.getD_some]
  obtain ⟨holder, depth, waiters⟩ := @retake_freeFor context className held table
    (free ▸ Guard.freeFor_new context)
  rw [same, free] at holder depth waiters
  have owned := holder (Or.inl asked)
  rw [Guard.depthOf, if_pos owned] at depth
  have counted : guard.depth = held.count className := depth.trans (Nat.zero_add _)
  rw [known, ← owned, ← counted, ← List.eq_nil_of_sublist_nil waiters]

end Restoration

/-- A stack was saved on a host, and another one has loaded the programs of its calls alike. -/
structure Host.Reloads (host saver : Host) (stack : Stack) : Prop where
  saved : stack ∈ saver.executions
  loaded : stack.root.isLoaded host.engine.code = true
  same : ∀ program ∈ stack.root.programs,
    host.engine.code.programs.get? program = saver.engine.code.programs.get? program

theorem Host.Reloads.formed {host saver : Host} {stack : Stack} {before known : List Function}
    (reloads : host.Reloads saver stack) (saved : saver.Formed before) (formed : host.Formed known) :
    stack.Formed (host.engine.past known) :=
  saved.moved formed reloads.saved reloads.loaded reloads.same

theorem Frame.bodiesOf_pos {frame : Frame} {className : String} :
    0 < frame.bodiesOf className ↔ className ∈ frame.heldGuards := by
  rw [← Frame.count_heldGuards, List.count_pos_iff]

/-- Whatever other stacks have done on an engine: once a stack that was saved is restored there, it
holds the guard of each of its bodies if nobody else had that guard, once for each body. A guard
that somebody else had stays where it was, and the stack is restored all the same. -/
theorem restored_guards_held {saver host : Host} (saved : saver.Reachable)
    (reachable : host.Reachable) {stack : Stack} (reloads : host.Reloads saver stack)
    {engine : Engine} {restored : Stack}
    (done : host.engine.restore stack.unbound = .ok (engine, restored)) :
    restored = stack ∧ ∀ className, 0 < stack.root.bodiesOf className →
      let before := host.engine.world.guards.guardOf className
      let after := engine.world.guards.guardOf className
      ((∀ other, before.holder = some other → other = stack.context) →
        after.holder = some stack.context ∧
        after.depthOf stack.context =
          before.depthOf stack.context + stack.root.bodiesOf className) ∧
      ∀ other, before.holder = some other → other ≠ stack.context →
        after.holder = some other ∧ after.depth = before.depth := by
  obtain ⟨_, saving⟩ := saved.resting
  obtain ⟨known, resting⟩ := reachable.resting
  obtain ⟨same, rfl⟩ := Engine.restore_whole resting.knows.fits
    (reloads.formed saving.toFormed resting.toFormed) reloads.loaded done
  refine ⟨same, fun className runs => ⟨fun free => ?_, fun other taken different => ?_⟩⟩
  · obtain ⟨holder, depth, _⟩ := @Restoration.retake_freeFor _ _ stack.root.heldGuards _ free
    rw [Frame.count_heldGuards] at depth
    exact ⟨holder (Or.inl (Frame.bodiesOf_pos.mp runs)), depth⟩
  · exact Restoration.retake_of_taken taken different

theorem Host.Reloads.of_setup {operations : List Operation} {stack : Stack}
    (saved : stack ∈ (Host.after operations).executions)
    (loaded : stack.root.isLoaded (Host.after operations).engine.code = true) :
    (Host.after (operations.filter Operation.isSetup)).Reloads (Host.after operations) stack := by
  have code := (Host.after_setup operations).1.code
  exact ⟨saved, code ▸ loaded, fun _ _ => by rw [code]⟩

theorem restored_guards_held_of_tank :
    ∃ stack engine, stack ∈ (Host.after twoCallers).executions ∧
      (Host.after (twoCallers.filter Operation.isSetup)).engine.restore stack.unbound =
        .ok (engine, stack) ∧
      (engine.world.guards.guardOf "Tank").holder = some stack.context ∧
      (engine.world.guards.guardOf "Tank").depthOf stack.context = 1 := by
  have checked : ((Host.after twoCallers).executions.any fun stack =>
      stack.root.isLoaded (Host.after twoCallers).engine.code &&
      stack.root.bodiesOf "Tank" == 1 &&
      ((Host.after (twoCallers.filter Operation.isSetup)).engine.restore stack.unbound).isOk &&
      (Host.after (twoCallers.filter Operation.isSetup)).engine.world.guards.guardOf "Tank" ==
        {}) = true := by
    decide +kernel
  obtain ⟨stack, among, checked⟩ := List.any_eq_true.mp checked
  simp only [Bool.and_eq_true, beq_iff_eq] at checked
  obtain ⟨⟨⟨loaded, runs⟩, restores⟩, free⟩ := checked
  cases done : (Host.after (twoCallers.filter Operation.isSetup)).engine.restore stack.unbound with
  | error error =>
      rw [done] at restores
      cases restores
  | ok result =>
      obtain ⟨engine, restored⟩ := result
      obtain ⟨rfl, held⟩ := restored_guards_held (Host.after_reachable twoCallers)
        (Host.after_reachable _) (.of_setup among loaded) done
      obtain ⟨holder, depth⟩ := (held "Tank" (runs ▸ Nat.one_pos)).1 (free ▸ Guard.freeFor_new _)
      rw [free, runs] at depth
      exact ⟨restored, engine, among, done, holder, depth⟩

def tankTaken : Host := Host.after (twoCallers ++ [.abort 0, .resume 1 .unlimited])

def tankShared : Host := (Host.after twoCallers).executions[0]?.elim tankTaken tankTaken.restoring

/-- Restoring succeeds, and two contexts are in the body of a method that one of them has locked. -/
theorem restored_without_guard :
    tankShared.executions.map
        (fun stack => (stack.context, stack.isActive, stack.root.bodiesOf "Tank")) =
      [(⟨1⟩, false, 0), (⟨2⟩, true, 1), (⟨1⟩, true, 1)] ∧
    tankShared.engine.world.guards.guard? "Tank" = some ⟨some ⟨2⟩, 1, [⟨1⟩]⟩ := by
  decide +kernel

namespace Engine

def restoreAll (engine : Engine) : List Stack → Except EngineError (Engine × List Stack)
  | [] => .ok (engine, [])
  | stack :: rest => do
      let (engine, stack) ← engine.restore stack
      let (engine, rest) ← engine.restoreAll rest
      return (engine, stack :: rest)

variable {engine : Engine} {past : Past}

theorem restore_retaking {stack : Stack} (fits : past.Fits engine.code) (formed : stack.Formed past)
    (loaded : stack.root.isLoaded engine.code = true)
    (program : stack.isActive = true → (engine.code.programs.get? stack.program).isSome = true) :
    engine.restore stack.unbound = .ok (engine.retaking stack, stack) := by
  cases done : engine.restore stack.unbound with
  | ok result =>
      obtain ⟨same, taken⟩ := restore_whole fits formed loaded done
      rw [← taken, ← same]
  | error error =>
      by_cases active : stack.isActive = true
      · have restored := @restore_active engine stack.unbound active (program active)
        rw [done] at restored
        cases restored
      · have idle : (!stack.isActive) = true := by simpa using active
        rw [restore, if_pos (show (!stack.unbound.isActive) = true from idle)] at done
        cases done

theorem restoreAll_retaking {group : List Stack} (fits : past.Fits engine.code)
    (formed : ∀ stack ∈ group, stack.Formed past)
    (loaded : ∀ stack ∈ group, stack.root.isLoaded engine.code = true)
    (programs : ∀ stack ∈ group, stack.isActive = true →
      (engine.code.programs.get? stack.program).isSome = true) :
    engine.restoreAll (group.map Stack.unbound) = .ok (group.foldl retaking engine, group) := by
  induction group generalizing engine with
  | nil => rfl
  | cons stack rest ih =>
      have here : stack ∈ stack :: rest := List.mem_cons_self ..
      have first := restore_retaking fits (formed stack here) (loaded stack here)
        (programs stack here)
      have behind := @ih (engine.retaking stack) fits
        (fun other among => formed other (List.mem_cons_of_mem _ among))
        (fun other among => loaded other (List.mem_cons_of_mem _ among))
        (fun other among => programs other (List.mem_cons_of_mem _ among))
      simp only [List.map_cons, restoreAll, first, behind, List.foldl_cons, bind, Except.bind, pure,
        Except.pure]

end Engine

namespace Restoration

variable {group : List Stack} {engine : Engine} {className : String}

theorem guard?_retaking_of_apart (apart : ∀ stack ∈ group, stack.root.bodiesOf className = 0) :
    (group.foldl Engine.retaking engine).world.guards.guard? className =
      engine.world.guards.guard? className := by
  induction group generalizing engine with
  | nil => rfl
  | cons stack rest ih =>
      have first : className ∉ stack.root.heldGuards := by
        rw [← Frame.bodiesOf_pos, apart stack (List.mem_cons_self ..)]
        exact Nat.lt_irrefl 0
      exact (ih fun other among => apart other (List.mem_cons_of_mem _ among)).trans
        (guard?_retake_of_not_mem first _)

/-- Of stacks that are apart in the guards they hold, the one that has bodies of a class gets its
guard. -/
theorem guard?_retaking (free : engine.world.guards.guardOf className = {})
    (apart : group.Pairwise fun stack other =>
      stack.root.bodiesOf className = 0 ∨ other.root.bodiesOf className = 0)
    {stack : Stack} (among : stack ∈ group) (runs : 0 < stack.root.bodiesOf className) :
    (group.foldl Engine.retaking engine).world.guards.guard? className =
      some ⟨some stack.context, stack.root.bodiesOf className, []⟩ := by
  obtain ⟨before, behind, rfl⟩ := List.append_of_mem among
  obtain ⟨_, ahead, across⟩ := List.pairwise_append.mp apart
  have outside : ∀ other : Stack, stack.root.bodiesOf className = 0 ∨
      other.root.bodiesOf className = 0 → other.root.bodiesOf className = 0 :=
    fun other apart => apart.resolve_left (Nat.ne_of_gt runs)
  have earlier := @guard?_retaking_of_apart before engine className fun other first =>
    outside other (across other first stack (List.mem_cons_self ..)).symm
  rw [List.foldl_append, List.foldl_cons, guard?_retaking_of_apart fun other later =>
    outside other ((List.pairwise_cons.mp ahead).1 other later)]
  have still : (before.foldl Engine.retaking engine).world.guards.guardOf className = {} := by
    rw [GuardTable.guardOf, earlier]
    exact free
  rw [← Frame.count_heldGuards]
  exact guard?_retake_of_free still (Frame.bodiesOf_pos.mp runs)

end Restoration

/-- Stacks that were saved together are loaded on an engine on which no guard is taken, no two of them
inside synchronized methods of one class. All are restored, in whatever order, and the guards are
then as they were: each class that has bodies on a stack is held by the context of that stack, once
for each body, and all others are free. -/
theorem restored_group_rebuilds_guards {saver host : Host} (saved : saver.Reachable)
    (reachable : host.Reachable)
    (untaken : ∀ className, host.engine.world.guards.guardOf className = {})
    (group : List Stack) (reloads : ∀ stack ∈ group, host.Reloads saver stack)
    (programs : ∀ stack ∈ group, stack.isActive = true →
      (host.engine.code.programs.get? stack.program).isSome = true)
    (apart : group.Pairwise fun stack other => ∀ className,
      stack.root.bodiesOf className = 0 ∨ other.root.bodiesOf className = 0) :
    ∃ engine, host.engine.restoreAll (group.map Stack.unbound) = .ok (engine, group) ∧
      (∀ stack ∈ group, ∀ className, 0 < stack.root.bodiesOf className →
        engine.world.guards.guard? className =
          some ⟨some stack.context, stack.root.bodiesOf className, []⟩) ∧
      (∀ className, (∀ stack ∈ group, stack.root.bodiesOf className = 0) →
        engine.world.guards.guardOf className = {}) ∧
      ∀ order : List Stack, order.Perm group →
        ∃ other, host.engine.restoreAll (order.map Stack.unbound) = .ok (other, order) ∧
          ∀ className, other.world.guards.guard? className =
            engine.world.guards.guard? className := by
  obtain ⟨_, saving⟩ := saved.resting
  obtain ⟨known, resting⟩ := reachable.resting
  -- Whatever the order, the stacks come back as they were; only the guards are taken one by one.
  have restores : ∀ order : List Stack, order.Perm group →
      host.engine.restoreAll (order.map Stack.unbound) =
        .ok (order.foldl Engine.retaking host.engine, order) := fun order same =>
    Engine.restoreAll_retaking resting.knows.fits
      (fun stack among => (reloads stack (same.mem_iff.mp among)).formed saving.toFormed
        resting.toFormed)
      (fun stack among => (reloads stack (same.mem_iff.mp among)).loaded)
      (fun stack among => programs stack (same.mem_iff.mp among))
  have holds : ∀ order : List Stack, order.Perm group → ∀ className, ∀ stack ∈ group,
      0 < stack.root.bodiesOf className →
      (order.foldl Engine.retaking host.engine).world.guards.guard? className =
        some ⟨some stack.context, stack.root.bodiesOf className, []⟩ := by
    intro order same className stack among runs
    refine Restoration.guard?_retaking (untaken className) ?_ (same.mem_iff.mpr among) runs
    exact (same.pairwise_iff Or.symm).mpr (apart.imp fun apart => apart className)
  have spares : ∀ order : List Stack, order.Perm group → ∀ className,
      (∀ stack ∈ group, stack.root.bodiesOf className = 0) →
      (order.foldl Engine.retaking host.engine).world.guards.guard? className =
        host.engine.world.guards.guard? className := fun order same className outside =>
    Restoration.guard?_retaking_of_apart fun stack among => outside stack (same.mem_iff.mp among)
  refine ⟨_, restores group (.refl _), fun stack among className =>
    holds group (.refl _) className stack among, fun className outside => ?_, fun order same =>
      ⟨_, restores order same, fun className => ?_⟩⟩
  · rw [GuardTable.guardOf, spares group (.refl _) className outside]
    exact untaken className
  -- At most one of the stacks is inside a class, so its guard goes to that one in every order.
  · by_cases outside : ∀ stack ∈ group, stack.root.bodiesOf className = 0
    · rw [spares order same className outside, spares group (.refl _) className outside]
    · obtain ⟨stack, runs⟩ := Classical.not_forall.mp outside
      obtain ⟨among, runs⟩ := Classical.not_imp.mp runs
      have runs := Nat.pos_of_ne_zero runs
      rw [holds order same className stack among runs,
        holds group (.refl _) className stack among runs]

def threeInside : List Operation :=
  [.register { name := "Tank" }, .register { name := "Pump" }, .register { name := "Door" },
    .compile "works" "class Pump { synchronized int run() { wait(1); return 1; } }
      class Tank \x7b
        synchronized int fill(Pump p) { { int more = 1 + this.drain(p); } return 1; }
        synchronized int drain(Pump p) { return p.run() * 2; }
      \x7d
      class Door { synchronized int pass() { wait(1); return 1; } }",
    .newInstance "Tank", .newInstance "Pump", .newInstance "Door",
    .newStack ⟨1⟩, .newStack ⟨1⟩, .newStack ⟨1⟩,
    .callMethod 0 ⟨0, 0⟩ "fill" [.pointer "" "Pump" ⟨1, 0⟩] .unlimited,
    .callMethod 1 ⟨2, 0⟩ "pass" [] .unlimited, .callMethod 2 ⟨2, 0⟩ "pass" [] .unlimited]

theorem restored_group_rebuilds_guards_of_three :
    ∃ group engine, group = (Host.after threeInside).executions.reverse ∧
      (Host.after (threeInside.filter Operation.isSetup)).engine.restoreAll
        (group.map Stack.unbound) = .ok (engine, group) ∧
      engine.world.guards.guard? "Tank" = some ⟨some ⟨1⟩, 2, []⟩ ∧
      engine.world.guards.guard? "Pump" = some ⟨some ⟨1⟩, 1, []⟩ ∧
      engine.world.guards.guard? "Door" = some ⟨some ⟨2⟩, 1, []⟩ := by
  have shown : (Host.after threeInside).executions.map (fun stack =>
      (stack.context, stack.isActive, stack.root.heldGuards,
        stack.root.isLoaded (Host.after threeInside).engine.code &&
        ((Host.after threeInside).engine.code.programs.get? stack.program).isSome)) =
      [(⟨1⟩, true, ["Tank", "Tank", "Pump"], true), (⟨2⟩, true, ["Door"], true),
        (⟨3⟩, true, [], true)] := by
    decide +kernel
  obtain ⟨first, second, third, same⟩ : ∃ first second third,
      (Host.after threeInside).executions = [first, second, third] := by
    exact List.length_eq_three.mp (by simpa using congrArg List.length shown)
  simp only [same, List.map_cons, List.map_nil, List.cons.injEq, Prod.mk.injEq, and_true,
    Bool.and_eq_true] at shown
  obtain ⟨⟨firstContext, _, firstHeld, firstLoaded, firstProgram⟩,
    ⟨secondContext, _, secondHeld, secondLoaded, secondProgram⟩,
    ⟨_, _, thirdHeld, thirdLoaded, thirdProgram⟩⟩ := shown
  have bodies : ∀ (stack : Stack) (held : List String), stack.root.heldGuards = held →
      ∀ className, stack.root.bodiesOf className = held.count className := by
    rintro stack _ rfl className
    exact (Frame.count_heldGuards ..).symm
  have alike := (Host.after_setup threeInside).1.code
  have fresh := (Host.after_setup threeInside).2.guards
  have each : ∀ stack ∈ [third, second, first],
      (Host.after (threeInside.filter Operation.isSetup)).Reloads (Host.after threeInside) stack ∧
      ((Host.after (threeInside.filter Operation.isSetup)).engine.code.programs.get?
        stack.program).isSome = true := by
    simp only [List.forall_mem_cons, List.not_mem_nil, false_implies, implies_true, and_true, alike]
    exact ⟨⟨.of_setup (by simp [same]) thirdLoaded, thirdProgram⟩,
      ⟨.of_setup (by simp [same]) secondLoaded, secondProgram⟩,
      ⟨.of_setup (by simp [same]) firstLoaded, firstProgram⟩⟩
  obtain ⟨engine, restored, held, _⟩ := restored_group_rebuilds_guards
    (Host.after_reachable threeInside) (Host.after_reachable (threeInside.filter Operation.isSetup))
    (fun className => by simp [GuardTable.guardOf, GuardTable.guard?, fresh])
    [third, second, first] (fun stack among => (each stack among).1)
    (fun stack among _ => (each stack among).2)
    (by
      simp only [List.pairwise_cons, List.forall_mem_cons, List.not_mem_nil, false_implies,
        implies_true, List.Pairwise.nil, and_true, bodies _ _ firstHeld, bodies _ _ secondHeld,
        bodies _ _ thirdHeld]
      refine ⟨⟨fun _ => Or.inl rfl, fun _ => Or.inl rfl⟩, fun className => ?_⟩
      by_cases door : className = "Door"
      · exact Or.inr (by rw [door]; rfl)
      · exact Or.inl (by simp [Ne.symm door]))
  refine ⟨_, engine, by simp [same], restored, ?_, ?_, ?_⟩
  · have tank := held first (by simp) "Tank"
    rw [bodies _ _ firstHeld, firstContext] at tank
    exact tank (by decide)
  · have pump := held first (by simp) "Pump"
    rw [bodies _ _ firstHeld, firstContext] at pump
    exact pump (by decide)
  · have door := held second (by simp) "Door"
    rw [bodies _ _ secondHeld, secondContext] at door
    exact door (by decide)

end ScriptEngine
