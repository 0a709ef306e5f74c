import ScriptEngine.Proofs.Readmission
import ScriptEngine.Proofs.Rebuilding
/-! Every guard that is taken is released. As long as calls are gone on with where they can go on, a
context holds the guards of the frames on its stack and no others, however the calls are interleaved
and however they end; so when a call is over its context is out of all guards. -/

namespace ScriptEngine

/-- No guard is held by a context, or handed to it, and it is in no queue. -/
def GuardTable.Without (table : GuardTable) (context : ContextId) : Prop :=
  ∀ className, ¬ (table.guardOf className).Involves context

instance (guard : Guard) (context : ContextId) : Decidable (guard.Involves context) :=
  inferInstanceAs (Decidable (guard.holder = some context ∨ context ∈ guard.waiters))

theorem GuardTable.without_iff {table : GuardTable} {context : ContextId} :
    (∀ entry ∈ table.guards, ¬ (table.guardOf entry.1).Involves context) ↔
      table.Without context := by
  refine ⟨fun each className involves => ?_, fun without entry _ => without entry.1⟩
  cases known : table.guards.lookup className with
  | none => simp [guardOf, guard?, known, Guard.Involves] at involves
  | some guard =>
      obtain ⟨before, after, split, _⟩ := List.lookup_eq_some_iff.mp known
      exact each (className, guard) (by simp [split]) involves

instance (table : GuardTable) (context : ContextId) : Decidable (table.Without context) :=
  decidable_of_iff _ GuardTable.without_iff

/-- An operation that uses stacks linearly, and goes on with a call only if its functions are loaded,
the objects its methods were called on are there, and its depth is still allowed. -/
def Host.goesOn (host : Host) : Operation → Bool
  | .resume place _ => host.executions[place]?.all fun stack =>
      stack.root.continues host.engine.code host.engine.world.heap host.engine.code.maxCallDepth
  | operation => operation.isLinear

/-- A stack of another host can be restored here: the programs of its calls are loaded alike, the
guards they hold are free, and its context is nobody's here. -/
structure Host.Admits (host saver : Host) (stack : Stack) : Prop where
  loaded : stack.root.isLoaded host.engine.code = true
  same : ∀ program ∈ stack.root.programs,
    host.engine.code.programs.get? program = saver.engine.code.programs.get? program
  free : ∀ className ∈ stack.root.heldGuards,
    (host.engine.world.guards.guardOf className).holder = none
  without : host.engine.world.guards.Without stack.context
  alone : ∀ other ∈ host.executions, other.context ≠ stack.context
  counted : stack.isActive = true ∨ stack.context.number ≤ host.engine.ids.lastContext

/-- The hosts that any operations lead to, as long as calls are gone on with that can go on. A stack
that was saved on one of them may be restored on another one, or later on the same one, and a stack
may be dropped. -/
inductive Host.Orderly : Host → Prop
  | fresh : Orderly {}
  | step {host : Host} {operation : Operation} : host.Orderly → host.goesOn operation = true →
      Orderly (host.step operation)
  | restored {saver host : Host} {stack : Stack} : saver.Orderly → host.Orderly →
      stack ∈ saver.executions → host.Admits saver stack → Orderly (host.restoring stack)
  | dropped {host : Host} (place : Nat) : host.Orderly →
      Orderly { host with executions := host.executions.eraseIdx place }

theorem Host.goesOn_linear {host : Host} {operation : Operation}
    (goes : host.goesOn operation = true) : operation.isLinear = true := by
  cases operation <;> first | rfl | exact goes

namespace Engine

variable {engine : Engine} {stack : Stack} {past : Past}

theorem Drives.spares {gate : Gate} {driven : Driven} (drives : engine.Drives stack gate driven) :
    engine.world.guards.Spares stack.context driven.engine.world.guards := by
  cases drives with
  | refused => exact .refl ..
  | started entry =>
      exact (drive_effects engine { stack with entry := some entry, root := {}, lastError := none }
        gate).spares
  | resumed => exact (drive_effects ..).spares

theorem start_exact (fits : past.Fits engine.code) (formed : stack.Formed past)
    (exact : engine.world.guards.Exact stack.context stack.root.heldGuards stack.root.awaited)
    (entry : EntryCall) (gate : Gate) :
    (engine.start stack entry gate).engine.world.guards.Exact stack.context
      (engine.start stack entry gate).stack.root.heldGuards
      (engine.start stack entry gate).stack.root.awaited := by
  unfold start
  split
  · exact exact
  · rename_i idle
    have ended : stack.entry = none := by simpa [Stack.isActive] using idle
    rw [formed.idle ended] at exact
    exact @drive_exact engine { stack with entry := some entry, root := {}, lastError := none } _
      fits .fresh exact Frame.continues_fresh gate

theorem callMethod_exact (fits : past.Fits engine.code) (formed : stack.Formed past)
    (exact : engine.world.guards.Exact stack.context stack.root.heldGuards stack.root.awaited)
    (handle : Handle) (name : String) (args : Variables) (gate : Gate) :
    (engine.callMethod stack handle name args gate).engine.world.guards.Exact stack.context
      (engine.callMethod stack handle name args gate).stack.root.heldGuards
      (engine.callMethod stack handle name args gate).stack.root.awaited := by
  unfold callMethod
  split
  · exact exact
  · exact start_exact fits formed exact ..

end Engine

/-- Each stack has a context of its own, which holds exactly the guards that frames of the stack
hold and has to do with no other guard but the one the stack waits for. -/
structure Host.Tidy (host : Host) : Prop extends host.Exclusive where
  ordered : host.engine.world.guards.Ordered
  bounded : ∀ className context, (host.engine.world.guards.guardOf className).Involves context →
    context.number ≤ host.engine.ids.lastContext
  exact : ∀ stack ∈ host.executions, host.engine.world.guards.Exact stack.context
    stack.root.heldGuards stack.root.awaited

namespace Host

variable {host : Host} {known : List Function}

theorem Tidy.fresh : Tidy {} where
  contexts := List.nodup_nil
  numbered := nofun
  holds := nofun
  ordered := fun _ => ⟨List.nodup_nil, nofun⟩
  bounded := fun _ _ involves => involves.elim nofun nofun
  exact := nofun

theorem Tidy.congr {after : Host} (tidy : host.Tidy) (exclusive : after.Exclusive)
    (executions : after.executions = host.executions)
    (contexts : after.engine.ids.lastContext = host.engine.ids.lastContext)
    (guards : after.engine.world.guards.guards = host.engine.world.guards.guards) :
    after.Tidy where
  toExclusive := exclusive
  ordered := fun className => GuardTable.guardOf_congr guards className ▸ tidy.ordered className
  bounded := by
    intro className context involves
    rw [GuardTable.guardOf_congr guards] at involves
    rw [contexts]
    exact tidy.bounded className context involves
  exact := by
    rw [executions]
    exact fun stack among => (tidy.exact stack among).congr guards

theorem Tidy.joined {engine : Engine} {stack : Stack} (tidy : host.Tidy)
    (spares : host.engine.world.guards.Spares stack.context engine.world.guards)
    (alone : ∀ other ∈ host.executions, other.context ≠ stack.context)
    (contexts : host.engine.ids.lastContext ≤ engine.ids.lastContext)
    (numbered : stack.context.number ≤ engine.ids.lastContext)
    (exact : engine.world.guards.Exact stack.context stack.root.heldGuards stack.root.awaited) :
    Host.Tidy ⟨engine, host.executions ++ [stack]⟩ := by
  have each : ∀ other ∈ host.executions ++ [stack],
      engine.world.guards.Exact other.context other.root.heldGuards other.root.awaited := by
    intro other among
    rcases List.mem_append.mp among with kept | new
    · exact spares.exact (alone other kept) (tidy.exact other kept)
    · rw [List.mem_singleton.mp new]
      exact exact
  exact {
    contexts := by
      rw [List.map_append, List.map_singleton]
      refine List.nodup_append.mpr ⟨tidy.contexts, List.pairwise_singleton .., ?_⟩
      intro context old new among
      obtain ⟨other, kept, rfl⟩ := List.mem_map.mp old
      rw [List.mem_singleton.mp among]
      exact alone other kept
    numbered := by
      intro other among
      rcases List.mem_append.mp among with kept | new
      · exact Nat.le_trans (tidy.numbered other kept) contexts
      · rw [List.mem_singleton.mp new]
        exact numbered
    holds := fun other among className => Nat.le_of_eq ((each other among).count className).symm
    ordered := spares.ordered tidy.ordered
    bounded := by
      intro className other involves
      by_cases same : other = stack.context
      · rw [same]
        exact numbered
      · exact Nat.le_trans (tidy.bounded className other
          ((spares.involves other same className).mp involves)) contexts
    exact := each }

theorem Tidy.dropped (tidy : host.Tidy) (place : Nat) :
    Tidy { host with executions := host.executions.eraseIdx place } where
  contexts := by
    exact tidy.contexts.sublist ((List.eraseIdx_sublist ..).map Stack.context)
  numbered := fun stack among => tidy.numbered stack (List.mem_of_mem_eraseIdx among)
  holds := fun stack among => tidy.holds stack (List.mem_of_mem_eraseIdx among)
  ordered := tidy.ordered
  bounded := tidy.bounded
  exact := fun stack among => tidy.exact stack (List.mem_of_mem_eraseIdx among)

theorem Tidy.replaced {engine : Engine} {place : Nat} {stack left : Stack} (tidy : host.Tidy)
    (found : host.executions[place]? = some stack)
    (exclusive : Host.Exclusive ⟨engine, host.executions.set place left⟩)
    (contexts : engine.ids.lastContext = host.engine.ids.lastContext)
    (spares : host.engine.world.guards.Spares stack.context engine.world.guards)
    (context : left.context = stack.context)
    (exact : engine.world.guards.Exact stack.context left.root.heldGuards left.root.awaited) :
    Host.Tidy ⟨engine, host.executions.set place left⟩ where
  toExclusive := exclusive
  ordered := spares.ordered tidy.ordered
  bounded := by
    intro className other involves
    dsimp only at involves ⊢
    rw [contexts]
    by_cases same : other = stack.context
    · rw [same]
      exact tidy.numbered stack (List.mem_of_getElem? found)
    · exact tidy.bounded className other ((spares.involves other same className).mp involves)
  exact := by
    intro other among
    rcases tidy.elsewhere found among with rfl | ⟨kept, different⟩
    · rw [context]
      exact exact
    · exact spares.exact different (tidy.exact other kept)

theorem Tidy.driven (formed : host.Formed known) (tidy : host.Tidy) {gate : Gate}
    {run : Stack → Driven} (drives : ∀ stack, host.engine.Drives stack gate (run stack))
    {place : Nat} (exact : ∀ stack, host.executions[place]? = some stack →
      (run stack).engine.world.guards.Exact stack.context (run stack).stack.root.heldGuards
        (run stack).stack.root.awaited) : (host.drive place run).Tidy := by
  have exclusive := tidy.toExclusive.driven formed drives place
  unfold drive at exclusive ⊢
  split at exclusive
  · rename_i stack found
    have contexts : (run stack).engine.ids.lastContext = host.engine.ids.lastContext := by
      rw [(drives stack).keeps]
    exact tidy.replaced found exclusive contexts (drives stack).spares
      ((drives stack).advances formed.knows.fits
        (formed.executions stack (List.mem_of_getElem? found)).shape
        (tidy.holds stack (List.mem_of_getElem? found))).context
      (exact stack found)
  · exact tidy

theorem step_tidy (formed : host.Formed known) (tidy : host.Tidy) {operation : Operation}
    (goes : host.goesOn operation = true) : (host.step operation).Tidy := by
  have exclusive := step_exclusive formed tidy.toExclusive operation (goesOn_linear goes)
  have fits := formed.knows.fits
  have there : ∀ {place : Nat} {stack : Stack}, host.executions[place]? = some stack →
      stack.Formed (host.engine.past known) ∧ host.engine.world.guards.Exact stack.context
        stack.root.heldGuards stack.root.awaited := fun found =>
    ⟨formed.executions _ (List.mem_of_getElem? found), tidy.exact _ (List.mem_of_getElem? found)⟩
  cases operation with
  | register decl =>
      refine tidy.congr exclusive ?_ ?_ ?_ <;> simp only [step, Engine.register] <;>
        cases host.engine.code.classes.register decl <;> rfl
  | compile name source =>
      obtain ⟨contexts, world⟩ := Engine.compile_keeps host.engine name source
      exact tidy.congr exclusive rfl contexts (congrArg (fun world => world.guards.guards) world)
  | unload program =>
      refine tidy.congr exclusive ?_ ?_ ?_ <;> simp only [step, Engine.unload] <;>
        cases host.engine.code.programs.get? program <;> rfl
  | set setting value => cases setting <;> exact tidy.congr exclusive rfl rfl rfl
  | newInstance className =>
      refine tidy.congr exclusive ?_ ?_ ?_ <;> simp only [step, Engine.newInstance] <;>
        cases host.engine.code.classes.members? className <;> rfl
  | bindInstance program handle =>
      refine tidy.congr exclusive ?_ ?_ ?_ <;> simp only [step, Engine.bindInstance] <;>
        split <;> first | rfl | (split <;> rfl)
  | changeHeap change => exact tidy.congr exclusive rfl rfl rfl
  | newStack program =>
      -- The context is a new one, so no guard has to do with it.
      have fresh : ∀ context : ContextId, context.number ≤ host.engine.ids.lastContext →
          context ≠ (host.engine.newStack program).1.context := by
        rintro context numbered rfl
        exact Nat.not_succ_le_self _ numbered
      refine tidy.joined (.refl ..) (fun other kept => fresh _ (tidy.numbered other kept))
        (Nat.le_succ _) (Nat.le_refl _) (.of_out tidy.ordered fun className involves => ?_)
      exact fresh _ (tidy.bounded className _ involves) rfl
  | call place name args gate =>
      exact tidy.driven formed (fun stack => Engine.start_drives ..) fun stack found =>
        Engine.start_exact fits (there found).1 (there found).2 ..
  | callMethod place handle name args gate =>
      exact tidy.driven formed (fun stack => Engine.callMethod_drives ..) fun stack found =>
        Engine.callMethod_exact fits (there found).1 (there found).2 ..
  | resume place gate =>
      refine tidy.driven formed (fun _ => .resumed) fun stack found => ?_
      simp only [goesOn, found, Option.all_some] at goes
      exact Engine.drive_exact fits (there found).1.shape (there found).2 goes gate
  | abort place =>
      simp only [step] at exclusive ⊢
      split at exclusive
      · rename_i stack found
        refine tidy.replaced found exclusive rfl (Engine.abort_spares ..) rfl ?_
        have exact := Engine.abort_exact rfl (there found).2
        simpa [Engine.abort, Stack.finish] using exact
      · exact tidy
  | copy | reload => cases goes

theorem Admits.exact {saver : Host} {stack : Stack} (admits : host.Admits saver stack)
    (ordered : host.engine.world.guards.Ordered) :
    (Restoration.retake stack.context stack.root.heldGuards host.engine.world.guards).Exact
      stack.context stack.root.heldGuards stack.root.awaited := by
  have before := GuardTable.Exact.of_out ordered admits.without
  exact (before.retaken fun className among => Or.inl (admits.free className among)).awaiting _

theorem restoring_tidy {saver : Host} {before : List Function} {stack : Stack}
    (saved : saver.Formed before) (formed : host.Formed known) (tidy : host.Tidy)
    (among : stack ∈ saver.executions) (admits : host.Admits saver stack) :
    (host.restoring stack).Formed known ∧ (host.restoring stack).Tidy := by
  have fits := formed.knows.fits
  have joins := saved.moved formed among admits.loaded admits.same
  refine ⟨restoring_formed formed joins admits.loaded, ?_⟩
  rcases restoring_eq fits joins admits.loaded with same | taken
  · rw [same]
    exact tidy
  · have contexts : max host.engine.ids.lastContext stack.context.number =
        (host.engine.retaking stack).ids.lastContext := by
      unfold Engine.retaking
      dsimp only
      by_cases active : stack.isActive = true
      · rw [if_pos active]
        rfl
      · rw [if_neg active]
        exact Nat.max_eq_left (admits.counted.resolve_left active)
    rw [taken]
    exact tidy.joined (.foldl (fun _ _ => .tryLock ..) _ _) admits.alone
      (contexts ▸ Nat.le_max_left ..) (contexts ▸ Nat.le_max_right ..) (admits.exact tidy.ordered)

/-- Whatever an orderly host does, stacks hold the guards of their frames and no others. -/
theorem Orderly.tidy (orderly : host.Orderly) : (∃ known, host.Formed known) ∧ host.Tidy := by
  induction orderly with
  | fresh => exact ⟨⟨[], .fresh⟩, .fresh⟩
  | @step host operation _ goes ih =>
      obtain ⟨⟨known, formed⟩, tidy⟩ := ih
      obtain ⟨more, later⟩ := formed.step operation
      exact ⟨⟨_, later⟩, step_tidy formed tidy goes⟩
  | restored _ _ among admits saver ih =>
      obtain ⟨⟨before, saved⟩, _⟩ := saver
      obtain ⟨⟨known, formed⟩, tidy⟩ := ih
      obtain ⟨formed, tidy⟩ := restoring_tidy saved formed tidy among admits
      exact ⟨⟨known, formed⟩, tidy⟩
  | dropped place _ ih =>
      obtain ⟨⟨known, formed⟩, tidy⟩ := ih
      refine ⟨⟨known, formed.knows, fun stack among => ?_⟩, tidy.dropped place⟩
      exact formed.executions stack (List.mem_of_mem_eraseIdx among)

end Host

/-- As long as no call is gone on with that cannot go on, the context of each stack holds the guard
of each class exactly as often as frames of the stack hold it. When the call on a stack is over, by
whatever outcome or because it was given up, its context has no guard and waits for none. -/
theorem ended_calls_release_guards {host : Host} (orderly : host.Orderly) (stack : Stack)
    (among : stack ∈ host.executions) :
    (∀ className, host.engine.world.guards.depthOf stack.context className =
      stack.root.heldGuards.count className) ∧
    (stack.entry = none → host.engine.world.guards.Without stack.context) := by
  obtain ⟨⟨known, formed⟩, tidy⟩ := orderly.tidy
  have exact := tidy.exact stack among
  refine ⟨exact.count, fun ended className involves => ?_⟩
  rw [(formed.executions stack among).idle ended] at exact
  have counted := exact.involved className involves
  simp at counted

def Host.goesOnAlong (host : Host) : List Operation → Bool
  | [] => true
  | operation :: rest => host.goesOn operation && (host.step operation).goesOnAlong rest

theorem Host.Orderly.along {host : Host} (orderly : host.Orderly) {operations : List Operation}
    (goes : host.goesOnAlong operations = true) : (operations.foldl Host.step host).Orderly := by
  induction operations generalizing host with
  | nil => exact orderly
  | cons operation rest ih =>
      rw [goesOnAlong, Bool.and_eq_true] at goes
      exact ih (orderly.step goes.1) goes.2

def twoAtDoor : List Operation :=
  [.register { name := "Door" },
    .compile "door" "class Door { synchronized int pass() { wait(1); return 1; } }",
    .newInstance "Door", .newStack ⟨1⟩, .newStack ⟨1⟩,
    .callMethod 0 ⟨0, 0⟩ "pass" [] .unlimited, .callMethod 1 ⟨0, 0⟩ "pass" [] .unlimited]

def doorLeft : Host :=
  let host := Host.after
    (twoAtDoor ++ [.abort 0, .resume 1 .unlimited, .resume 1 .unlimited])
  { host with executions := host.executions.eraseIdx 0 }

def doorPassed : Host :=
  ((Host.after twoAtDoor).executions[0]?.elim doorLeft doorLeft.restoring).step
    (.resume 1 .unlimited)

theorem ended_calls_release_guards_of_door :
    doorPassed.executions.map Stack.isActive = [false, false] ∧
      ∀ stack ∈ doorPassed.executions,
        (∀ className, doorPassed.engine.world.guards.depthOf stack.context className =
          stack.root.heldGuards.count className) ∧
        (stack.entry = none → doorPassed.engine.world.guards.Without stack.context) := by
  have saved : (Host.after twoAtDoor).Orderly := .along .fresh (by decide +kernel)
  have left : doorLeft.Orderly := .dropped 0 (.along .fresh (by decide +kernel))
  have code : doorLeft.engine.code = (Host.after twoAtDoor).engine.code := by
    have later := (Host.after_setup
      (twoAtDoor ++ [.abort 0, .resume 1 .unlimited, .resume 1 .unlimited])).1.code
    rw [List.filter_append] at later
    exact later.symm.trans (Host.after_setup twoAtDoor).1.code
  have checked : ((Host.after twoAtDoor).executions[0]?.any fun stack =>
      stack.root.isLoaded doorLeft.engine.code && stack.isActive &&
      stack.root.heldGuards.all (fun className =>
        (doorLeft.engine.world.guards.guardOf className).holder.isNone) &&
      decide (doorLeft.engine.world.guards.Without stack.context) &&
      doorLeft.executions.all fun other => other.context ≠ stack.context) = true := by
    decide +kernel
  have goes : ((Host.after twoAtDoor).executions[0]?.elim doorLeft doorLeft.restoring).goesOn
      (.resume 1 .unlimited) = true := by
    decide +kernel
  have ended : doorPassed.executions.map Stack.isActive = [false, false] := by
    decide +kernel
  have orderly : doorPassed.Orderly := by
    refine .step ?_ goes
    cases found : (Host.after twoAtDoor).executions[0]? with
    | none => exact left
    | some stack =>
        rw [found] at checked
        simp only [Option.any_some, Bool.and_eq_true, List.all_eq_true, Option.isNone_iff_eq_none,
          decide_eq_true_eq] at checked
        obtain ⟨⟨⟨⟨loaded, active⟩, free⟩, without⟩, alone⟩ := checked
        exact .restored saved left (List.mem_of_getElem? found)
          ⟨loaded, fun _ _ => by rw [code], free, without, alone, Or.inl active⟩
  exact ⟨ended, fun stack among => ended_calls_release_guards orderly stack among⟩

/-- The program of a synchronized method is unloaded while the method runs. -/
def doorUnloaded : List Operation :=
  [.register { name := "Door" },
    .compile "door" "class Door { synchronized int pass() { wait(1); return 1; } }",
    .compile "main" "int main(Door d) { return d.pass(); }",
    .newInstance "Door", .newStack ⟨2⟩, .call 0 "main" [.pointer "" "Door" ⟨0, 0⟩] .unlimited,
    .unload ⟨1⟩, .resume 0 .unlimited]

/-- The call fails, and its guard stays locked for good. -/
theorem unloading_leaks_guard :
    (Host.after doorUnloaded).executions.map (fun stack => (stack.context, stack.isActive)) =
        [(⟨1⟩, false)] ∧
      (Host.after doorUnloaded).engine.world.guards.guard? "Door" = some ⟨some ⟨1⟩, 1, []⟩ := by
  decide +kernel

end ScriptEngine
