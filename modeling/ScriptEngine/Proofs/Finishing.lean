import ScriptEngine.Proofs.Transparency
import ScriptEngine.Proofs.Suspended
import ScriptEngine.Proofs.Trimming
/-! A call that no other context is in the way of finishes. Under gates that decline nothing each
yield is one of a wait, and the evaluation in one go has counted them all. -/

namespace ScriptEngine

structure Guard.LeftTo (guard : Guard) (context : ContextId) : Prop where
  holder : guard.holder = none ∨ guard.holder = some context
  waiters : guard.waiters = []

namespace Guard.LeftTo

variable {guard : Guard} {context : ContextId}

theorem tryAcquire (left : guard.LeftTo context) (limit : Nat) :
    (guard.tryAcquire context limit).2.LeftTo context := by
  unfold Guard.tryAcquire
  rcases left.holder with free | own
  · simp only [free, left.waiters]
    exact ⟨Or.inr rfl, rfl⟩
  · simp only [own, if_true]
    exact ⟨Or.inr rfl, left.waiters⟩

theorem release (left : guard.LeftTo context) : (guard.release context).2.LeftTo context := by
  unfold Guard.release
  split
  · exact left
  · split
    · simp only [handOver, left.waiters]
      exact ⟨Or.inl rfl, rfl⟩
    · exact ⟨left.holder, left.waiters⟩

end Guard.LeftTo

def GuardTable.LeftTo (table : GuardTable) (context : ContextId) : Prop :=
  ∀ className, ((table.guard? className).getD {}).LeftTo context

namespace GuardTable.LeftTo

variable {table : GuardTable} {context : ContextId}

theorem put (left : table.LeftTo context) {guard : Guard} (also : guard.LeftTo context)
    (className : String) :
    GuardTable.LeftTo { table with guards := GuardTable.put className guard table.guards }
      context := by
  intro name
  unfold guard?
  by_cases same : name = className
  · subst same
    rw [lookup_put_self]
    exact also
  · rw [lookup_put_of_ne same]
    exact left name

theorem tryLock (left : table.LeftTo context) (className : String) :
    (table.tryLock className context).2.LeftTo context :=
  left.put ((left className).tryAcquire _) className

theorem unlock (left : table.LeftTo context) (className : String) :
    (table.unlock className context).2.LeftTo context := by
  have own := left className
  unfold GuardTable.unlock
  split
  · exact left
  · rename_i guard found
    rw [found, Option.getD_some] at own
    exact left.put own.release className

theorem fresh (context : ContextId) (maxWaiters : Nat) :
    GuardTable.LeftTo { maxWaiters } context :=
  fun _ => ⟨Or.inl rfl, rfl⟩

end GuardTable.LeftTo

theorem Effects.leftTo {code : Code} {context : ContextId} {world changed : World}
    (effects : Effects code context world changed) (left : world.guards.LeftTo context) :
    changed.guards.LeftTo context := by
  induction effects with
  | refl => exact left
  | tail _ effect ih =>
      cases effect with
      | stored | allocated | bound | kept => exact ih
      | locked => exact ih.tryLock _
      | unlocked => exact ih.unlock _

theorem GuardTable.LeftTo.not_hindered {context : ContextId} {machine : Machine}
    (left : machine.world.guards.LeftTo context) (free : machine.gate = .unlimited) :
    ¬ Following.Hindered context machine := by
  rintro (gated | ⟨className, guard, holder, found, held, other⟩)
  · exact gated free
  · have own := (left className).holder
    rw [found, Option.getD_some, held] at own
    rcases own with unheld | same
    · cases unheld
    · exact other (Option.some.inj same)

namespace Pending

open Direct (Course Ending)

variable {engine : Engine} {stack : Stack} {entry : EntryCall} {invocation : Invocation}
  {past : Past}

theorem named (pending : Pending engine stack entry invocation) (program : ProgramId)
    (id : FunctionId) (named : stack.root.named? = some (program, id)) :
    engine.code.programs.function? program id = some invocation.function := by
  obtain ⟨kept, found⟩ := pending.found
  obtain ⟨resolved, chosen, _⟩ := Engine.entryCallee_eq engine.code stack entry
  rw [chosen] at found
  unfold Frame.named? at named
  rcases Evaluation.callee_chosen found with ⟨call, held, loaded⟩ | ⟨untold, _⟩
  · rw [held] at named
    cases named
    exact loaded
  · rw [untold] at named
    cases named

theorem owned (pending : Pending engine stack entry invocation)
    (consistent : engine.code.Consistent) : engine.code.Owns invocation.function := by
  obtain ⟨kept, found⟩ := pending.found
  obtain ⟨resolved, chosen, owned⟩ := Engine.entryCallee_eq engine.code stack entry
  rw [chosen] at found
  rcases Evaluation.callee_chosen found with ⟨call, _, loaded⟩ | ⟨_, resolved⟩
  · exact consistent.owns loaded
  · exact owned consistent _ _ resolved

theorem freely (pending : Pending engine stack entry invocation)
    (fresh : stack.root.named? = none) (alone : invocation.receiver = none) :
    engine.code.CalledFreely invocation.function := by
  obtain ⟨kept, found⟩ := pending.found
  unfold Engine.entryCallee at found
  rcases Evaluation.callee_chosen found with ⟨call, held, _⟩ | ⟨_, resolved⟩
  · rw [Frame.named?, held] at fresh
    cases fresh
  · have bare : entry.receiver = none := by
      rw [pending.called] at alone
      exact Option.map_eq_none_iff.mp alone
    simp only [bare] at resolved
    exact ⟨_, _, _, _, _, resolved⟩

theorem goes_alike (pending : Pending engine stack entry invocation)
    (fits : past.Fits engine.code) (shape : CallFrame past stack.root) {root : Frame}
    (also : CallFrame past root)
    (same : root.trimmed engine.code = stack.root.trimmed engine.code) {world : World}
    (agrees : engine.world.Agrees engine.code world) (yields : Nat) :
    Remainder.Matches engine.code yields
      (Remainder.run engine.code stack.context engine.code.maxCallDepth invocation stack.root
        ⟨engine.world, yields⟩)
      (Remainder.run engine.code stack.context engine.code.maxCallDepth invocation root
        ⟨world, yields⟩) := by
  have names : root.named? = stack.root.named? := by
    rw [← root.named?_trimmed, same, Frame.named?_trimmed]
  rw [← shape.run_trimmed fits pending.named, ← also.run_trimmed fits (names ▸ pending.named), same]
  refine Remainder.run_matches fits.consistent stack.context engine.code.maxCallDepth invocation _
    ⟨engine.world, yields⟩ ⟨world, yields⟩ (pending.owned fits.consistent) (shape.settled fits) ?_
    ⟨agrees, rfl⟩
  intro fresh alone
  refine pending.freely ?_ alone
  rw [← Frame.named?_trimmed, Frame.named?, fresh]
  rfl

/-- A call whose guards are its own is over after as many yields as its waits have left. -/
theorem finishes (pending : Pending engine stack entry invocation) (fits : past.Fits engine.code)
    (formed : stack.Formed past) (left : engine.world.guards.LeftTo stack.context) (yields : Nat) :
    ∃ count outcome, outcome ≠ .suspended ∧
      ((engine.resume stack .unlimited).resumed (List.replicate count .unlimited)).outcome =
        .ok outcome := by
  generalize remains : (Remainder.run engine.code stack.context engine.code.maxCallDepth invocation
    stack.root ⟨engine.world, yields⟩).course.yields - yields = remaining
  induction remaining using Nat.strongRecOn generalizing engine stack entry yields with
  | ind remaining ih =>
      obtain ⟨kept, driven⟩ := pending.drive_eq .unlimited
      have follows := Following.run_follows fits.consistent stack.context engine.code.maxCallDepth
        invocation stack.root ⟨engine.world, .unlimited⟩
      have moves := run_moves engine.code stack.context engine.code.maxCallDepth invocation
        stack.root ⟨engine.world, .unlimited⟩
      have later := Engine.drive_formed fits formed .unlimited
      have goesOn : ∀ root after, Invocation.run engine.code stack.context
          engine.code.maxCallDepth invocation stack.root ⟨engine.world, .unlimited⟩ =
            (.suspended root, after) → Pending { engine with world := after.world }
              { stack with entry := some { entry with kept }, root } { entry with kept }
              invocation := fun _ _ stopped => pending.suspended fits.consistent stopped
      simp only [Engine.resume, driven] at later ⊢
      generalize Invocation.run _ _ _ _ _ _ = ended at follows moves later goesOn ⊢
      obtain ⟨progress, machine⟩ := ended
      cases progress with
      | done value => exact ⟨0, .completed value, Outcome.noConfusion, rfl⟩
      | failed error => exact ⟨0, .failed error, Outcome.noConfusion, rfl⟩
      | suspended root =>
          have pending := goesOn root machine rfl
          have left := moves.effects.leftTo left
          obtain ⟨count, counted, continues⟩ := follows
          obtain rfl : count = 1 := by
            rcases counted with one | ⟨_, hindered⟩
            · exact one
            · exact absurd hindered (left.not_hindered (moves.unlimited rfl))
          rw [continues yields] at remains
          have ahead := (pending.goes_alike fits later.shape later.shape rfl
            (World.Agrees.refl _ _) (yields + 1)).later
          obtain ⟨count, outcome, finished, ends⟩ := ih _ (by
            rw [← remains]
            exact Nat.sub_lt_sub_left ahead (Nat.lt_succ_self yields)) pending fits later left
            (yields + 1) rfl
          exact ⟨count + 1, outcome, finished, ends⟩

end Pending

end ScriptEngine
