import ScriptEngine.Proofs.Restoring
/-! The stacks of a host. Whatever the host does, the frames on each of its stacks are those of a
call in progress, or of one that was left behind by its program. -/

namespace ScriptEngine

def Engine.past (engine : Engine) (known : List Function) : Past where
  known := known
  gone := fun program function => function.number ≤ engine.ids.lastFunction ∧
    engine.code.programs.function? program function = none

namespace Engine

variable {engine : Engine} {known : List Function}

theorem Knows.fits (knows : engine.Knows known) : (engine.past known).Fits engine.code where
  consistent := knows.consistent
  owned := by
    intro function owns
    obtain ⟨program, among, _, declared, _⟩ := knows.function?_iff.mp owns
    exact (knows.loaded program among function declared).1
  same := fun function among found loaded => knows.loaded_eq among loaded
  gone := fun program function gone => gone.2
  settled := fun function among missing => ⟨knows.bounded function among, missing⟩
  coherent := knows.coherent

/-- Driving a call keeps its frames in shape, and the guards they hold and wait for tallied. -/
theorem drive_kept {past : Past} {stack : Stack} (tally : Tally stack.context)
    (fits : past.Fits engine.code) (shape : CallFrame past stack.root)
    (covers : tally.Covers [] engine.code engine.code.maxCallDepth stack.root engine.world)
    (gate : Gate) :
    let driven := engine.drive stack gate
    CallFrame past driven.stack.root ∧
      tally.holds driven.stack.root.heldGuards driven.stack.root.awaited
        driven.engine.world.guards := by
  have driving := drive_driving engine stack gate
  generalize engine.drive stack gate = driven at driving ⊢
  have finished : ∀ {table : GuardTable}, tally.holds [] [] table →
      CallFrame past {} ∧ tally.holds ({} : Frame).heldGuards ({} : Frame).awaited table := by
    intro table kept
    exact ⟨.fresh, by simpa using kept⟩
  cases driving with
  | refused => exact ⟨shape, covers.counted⟩
  | @unentered entry outcome lastError unfound =>
      obtain ⟨resolved, chosen, _⟩ := entryCallee_eq engine.code stack entry
      refine finished ?_
      generalize stack.root = root at shape covers chosen
      cases shape with
      | fresh => exact covers.leaf rfl rfl
      | going progress =>
          refine tally.dropped (covers.continues.resolve_right fun goes => ?_) covers.counted
          exact unfound _ _ (chosen.trans (fits.callee_found progress goes _ _))
      | lost lost =>
          refine tally.dropped (covers.continues.resolve_right fun goes => ?_) covers.counted
          rw [fits.lost lost] at goes
          cases goes
  | @entered entry function kept found =>
      obtain ⟨resolved, chosen, owned⟩ := entryCallee_eq engine.code stack entry
      have started := fits.started shape (owned fits.consistent) (chosen ▸ found)
      have reached := run_kept tally fits engine.code.maxCallDepth []
        (entry.invocation function stack.program) stack.root ⟨engine.world, gate⟩ started.1
        started.2 covers
      generalize Invocation.run _ _ _ _ _ _ = ended at reached ⊢
      obtain ⟨progress, after⟩ := ended
      cases progress with
      | suspended root => exact ⟨.going reached.1, reached.2⟩
      | failed error => exact finished reached
      | done value => exact finished reached

theorem Turn.loaded {after : Engine} (turn : engine.Turn after) :
    engine.ids.lastFunction ≤ after.ids.lastFunction ∧ ∀ program ∈ after.code.programs,
      program ∈ engine.code.programs ∨
        ∀ function ∈ program.functions, engine.ids.lastFunction < function.id.number := by
  cases turn with
  | kept programs _ _ functions _ =>
      rw [programs, functions]
      exact ⟨Nat.le_refl _, fun _ among => Or.inl among⟩
  | unloaded unloaded =>
      unfold Engine.unload at unloaded
      split at unloaded
      · cases unloaded
      · cases unloaded
        exact ⟨Nat.le_refl _, fun program among => Or.inl (List.mem_filter.mp among).1⟩
  | compiled name source =>
      unfold Engine.compile
      dsimp only
      cases compiled : Compiler.compile engine.compileEnv engine.ids.nextProgram.1 name source
        engine.ids.nextProgram.2 with
      | mk result behind =>
          obtain ⟨ids, published⟩ := behind
          cases result with
          | error error =>
              obtain ⟨count, counted⟩ := Compiler.compile_failed compiled
              refine ⟨?_, fun _ among => Or.inl among⟩
              rw [counted]
              exact Nat.le_add_right ..
          | ok program =>
              have made := Compiler.compile_made compiled
              refine ⟨?_, fun loaded among => ?_⟩
              · rw [made.counted]
                exact Nat.le_add_right ..
              · rcases List.mem_append.mp among with old | new
                · exact Or.inl old
                · obtain rfl := List.mem_singleton.mp new
                  exact Or.inr fun function declared => (made.number declared).1

theorem Turn.past_within {after : Engine} {more : List Function} (turn : engine.Turn after)
    (before : engine.Knows known) (knows : after.Knows (known ++ more)) :
    (engine.past known).Within (after.past (known ++ more)) where
  known := fun function among => List.mem_append_left _ among
  gone := by
    rintro program id ⟨old, missing⟩
    obtain ⟨grows, loaded⟩ := turn.loaded
    refine ⟨Nat.le_trans old grows, ?_⟩
    cases found : after.code.programs.function? program id with
    | none => rfl
    | some function =>
        obtain ⟨holder, among, named, declared, identified⟩ := knows.function?_iff.mp found
        rcases loaded holder among with kept | new
        · rw [before.function?_iff.mpr ⟨holder, kept, named, declared, identified⟩] at missing
          cases missing
        · have number := new function declared
          rw [identified] at number
          exact absurd old (Nat.not_le.mpr number)

end Engine

structure Stack.Formed (past : Past) (stack : Stack) : Prop where
  shape : CallFrame past stack.root
  idle : stack.entry = none → stack.root = {}

theorem Stack.Formed.mono {past more : Past} {stack : Stack} (formed : stack.Formed past)
    (grows : past.Within more) : stack.Formed more :=
  ⟨formed.shape.mono grows, formed.idle⟩

theorem Stack.finish_formed (past : Past) (stack : Stack) : stack.finish.Formed past :=
  ⟨.fresh, fun _ => rfl⟩

structure Host.Formed (host : Host) (known : List Function) : Prop where
  knows : host.engine.Knows known
  executions : ∀ stack ∈ host.executions, stack.Formed (host.engine.past known)

def Tally.uncounted (context : ContextId) : Tally context where
  holds := fun _ _ _ => True
  taken := fun _ _ _ => True.intro
  refused := fun _ _ _ => True.intro
  released := fun _ => True.intro
  lenient := True
  dropped := fun _ {_ _ _ _} _ => True.intro

namespace Engine

theorem drive_idle {engine : Engine} {stack : Stack} {gate : Gate}
    (idle : stack.entry = none → stack.root = {}) :
    (engine.drive stack gate).stack.entry = none → (engine.drive stack gate).stack.root = {} := by
  have driving := drive_driving engine stack gate
  generalize engine.drive stack gate = driven at driving ⊢
  cases driving with
  | refused => exact idle
  | unentered => exact fun _ => rfl
  | entered =>
      generalize Invocation.run _ _ _ _ _ _ = ended
      obtain ⟨progress, after⟩ := ended
      cases progress with
      | done | failed => exact fun _ => rfl
      | suspended root =>
          intro absurdity
          cases absurdity

theorem drive_formed {engine : Engine} {past : Past} {stack : Stack}
    (fits : past.Fits engine.code) (formed : stack.Formed past) (gate : Gate) :
    (engine.drive stack gate).stack.Formed past where
  shape := (drive_kept (.uncounted stack.context) fits formed.shape
    ⟨True.intro, Or.inl True.intro⟩ gate).1
  idle := drive_idle formed.idle

theorem Drives.formed {engine : Engine} {past : Past} {stack : Stack} {gate : Gate}
    {driven : Driven} (drives : engine.Drives stack gate driven) (fits : past.Fits engine.code)
    (formed : stack.Formed past) : driven.stack.Formed past := by
  cases drives with
  | refused => exact formed
  | started entry => exact drive_formed fits ⟨.fresh, fun _ => rfl⟩ gate
  | resumed => exact drive_formed fits formed gate

theorem restore_formed {engine after : Engine} {past : Past} {stack restored : Stack}
    (fits : past.Fits engine.code) (formed : stack.Formed past)
    (done : engine.restore stack.unbound = .ok (after, restored)) : restored.Formed past := by
  obtain ⟨inactive, rfl, rfl⟩ | ⟨active, _, rfl, rfl⟩ := restore_cases done
  · have entryless : stack.entry = none := by
      simpa [Stack.isActive, Stack.unbound] using inactive
    have bare : stack.unbound.root = {} := by
      rw [Stack.unbound, formed.idle entryless, Frame.unbound_leaf]
      rfl
    exact ⟨bare ▸ .fresh, fun _ => bare⟩
  · refine ⟨(Restoration.callFrame_rebuilds fits formed.shape _).1, fun entryless => ?_⟩
    rw [Stack.isActive, entryless] at active
    cases active

end Engine

namespace Host

variable {host : Host} {known : List Function}

/-- The frames on every stack keep their shape with respect to what was known before. -/
theorem step_formed {past : Past} (fits : past.Fits host.engine.code)
    (formed : ∀ stack ∈ host.executions, stack.Formed past) (operation : Operation) :
    ∀ stack ∈ (host.step operation).executions, stack.Formed past :=
  step_stacks formed (fun _ _ => ⟨.fresh, fun _ => rfl⟩)
    (fun _ formed drives => drives.formed fits formed) (Stack.finish_formed past)
    (fun formed done => Engine.restore_formed fits formed done)

theorem Formed.fresh : Formed {} [] := ⟨Engine.Knows.fresh, nofun⟩

theorem Formed.step (formed : host.Formed known) (operation : Operation) :
    ∃ more, (host.step operation).Formed (known ++ more) := by
  obtain ⟨knows, formed⟩ := formed
  have turn := step_turn host operation
  obtain ⟨more, later⟩ := turn.knows knows
  refine ⟨more, later, fun stack among => ?_⟩
  exact (step_formed knows.fits formed operation stack among).mono (turn.past_within knows later)

theorem after_formed (operations : List Operation) :
    ∃ known, (after operations).Formed known := by
  induction operations using List.reverseRecOn with
  | nil => exact ⟨[], .fresh⟩
  | append_singleton operations operation ih =>
      obtain ⟨known, formed⟩ := ih
      obtain ⟨more, formed⟩ := formed.step operation
      exact ⟨known ++ more, by
        rw [after_concat]
        exact formed⟩

end Host

end ScriptEngine
