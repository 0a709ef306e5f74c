import ScriptEngine.Proofs.MutualExclusion
/-! Counting guards exactly. A context holds each guard as often as frames of its stack need it, and
has to do with no other guard than the one its innermost call waits for. What others do does not
change that, and giving up a call releases all of it. -/

namespace ScriptEngine

namespace Guard

/-- The context holds the guard, or was handed it, or waits for it. -/
def Involves (guard : Guard) (context : ContextId) : Prop :=
  guard.holder = some context ∨ context ∈ guard.waiters

/-- Every context has one place in a guard at most. -/
structure Ordered (guard : Guard) : Prop where
  once : guard.waiters.Nodup
  apart : ∀ context ∈ guard.waiters, guard.holder ≠ some context

variable {guard : Guard} {context other : ContextId} {limit : Nat}

theorem involves_handOver : guard.handOver.Involves context ↔ context ∈ guard.waiters := by
  unfold Involves handOver
  cases guard.waiters with
  | nil => simp
  | cons first rest => simp [eq_comm]

namespace Ordered

theorem handOver (ordered : guard.Ordered) : guard.handOver.Ordered := by
  obtain ⟨once, _⟩ := ordered
  unfold Guard.handOver
  cases waiting : guard.waiters with
  | nil => exact ⟨List.nodup_nil, nofun⟩
  | cons first rest =>
      rw [waiting, List.nodup_cons] at once
      refine ⟨once.2, fun context among held => once.1 ?_⟩
      rw [Option.some.inj held]
      exact among

theorem tryAcquire (ordered : guard.Ordered) (context : ContextId) (limit : Nat) :
    (guard.tryAcquire context limit).2.Ordered := by
  obtain ⟨once, apart⟩ := ordered
  unfold Guard.tryAcquire
  cases held : guard.holder with
  | none =>
      refine ⟨once.filter _, fun other among same => ?_⟩
      have different := (List.mem_filter.mp among).2
      simp [Option.some.inj same] at different
  | some holder =>
      rw [held] at apart
      dsimp only
      split
      · exact ⟨once, apart⟩
      · split
        · rename_i own queues
          simp only [Bool.and_eq_true, decide_eq_true_eq] at queues
          refine ⟨?_, fun other among => ?_⟩
          · refine List.nodup_append.mpr ⟨once, List.pairwise_singleton .., ?_⟩
            rintro waiting old new among rfl
            exact queues.1 (List.mem_singleton.mp among ▸ old)
          · rcases List.mem_append.mp among with old | new
            · exact apart other old
            · rw [List.mem_singleton.mp new]
              exact fun same => own (Option.some.inj same)
        · exact ⟨once, by rw [held]; exact apart⟩

theorem release (ordered : guard.Ordered) (context : ContextId) :
    (guard.release context).2.Ordered := by
  unfold Guard.release
  split
  · exact ordered
  · split
    · exact ordered.handOver
    · exact ⟨ordered.once, ordered.apart⟩

theorem withdraw (ordered : guard.Ordered) (context : ContextId) :
    (guard.withdraw context).Ordered := by
  have left : Ordered { guard with waiters := guard.waiters.filter (· ≠ context) } :=
    ⟨ordered.once.filter _, fun other among => ordered.apart other (List.mem_filter.mp among).1⟩
  unfold Guard.withdraw
  dsimp only
  split
  · exact left.handOver
  · exact left

end Ordered

theorem involves_tryAcquire (different : other ≠ context) :
    (guard.tryAcquire context limit).2.Involves other ↔ guard.Involves other := by
  unfold Involves tryAcquire
  cases held : guard.holder with
  | none => simp [different, Ne.symm different]
  | some holder =>
      dsimp only
      split
      · rfl
      · split <;> simp [held, different]

theorem involves_release (different : other ≠ context) :
    (guard.release context).2.Involves other ↔ guard.Involves other := by
  unfold release
  split
  · rfl
  · rename_i held
    simp only [Bool.or_eq_true, decide_eq_true_eq, not_or, Decidable.not_not] at held
    split
    · rw [involves_handOver, Involves, held.1]
      simp [Ne.symm different]
    · rfl

theorem involves_withdraw (different : other ≠ context) :
    (guard.withdraw context).Involves other ↔ guard.Involves other := by
  unfold withdraw
  dsimp only
  split
  · rename_i handed
    simp only [Bool.and_eq_true, decide_eq_true_eq] at handed
    rw [involves_handOver, Involves, handed.1]
    simp [different, Ne.symm different]
  · simp [Involves, different]

theorem release_held (ordered : guard.Ordered) (held : 0 < guard.depthOf context) :
    (guard.release context).2.depthOf context + 1 = guard.depthOf context ∧
      ((guard.release context).2.Involves context → 1 < guard.depthOf context) := by
  have holds : guard.holder = some context := by
    by_contra other
    simp [depthOf, other] at held
  simp only [depthOf, holds, if_true] at held
  unfold release
  rw [if_neg (by simp [holds, Nat.ne_of_gt held])]
  split
  · rename_i last
    rw [handOver_depthOf, involves_handOver]
    refine ⟨by simp [depthOf, holds, last], fun waits => ?_⟩
    exact absurd holds (ordered.apart context waits)
  · rename_i more
    simp only [depthOf, holds, if_true]
    exact ⟨Nat.sub_add_cancel held, fun _ => by omega⟩

theorem depthOf_of_not_involves (out : ¬ guard.Involves context) : guard.depthOf context = 0 :=
  if_neg fun holds => out (Or.inl holds)

theorem not_involves_withdraw (free : guard.depthOf context = 0) :
    ¬ (guard.withdraw context).Involves context := by
  unfold withdraw
  dsimp only
  split
  · simp [involves_handOver]
  · rename_i kept
    rintro (holds | waits)
    · exact kept (by simpa [depthOf, show guard.holder = some context from holds] using free)
    · simp at waits

end Guard

namespace GuardTable

def guardOf (table : GuardTable) (className : String) : Guard := (table.guard? className).getD {}

variable {table after : GuardTable} {context other : ContextId} {className : String}

theorem depthOf_eq (table : GuardTable) (context : ContextId) (className : String) :
    table.depthOf context className = (table.guardOf className).depthOf context := rfl

theorem guardOf_congr (same : after.guards = table.guards) (className : String) :
    after.guardOf className = table.guardOf className := by
  unfold guardOf guard?
  rw [same]

theorem guardOf_put (guard : Guard) (name : String) :
    guardOf { table with guards := put className guard table.guards } name =
      if name = className then guard else table.guardOf name := by
  unfold guardOf guard?
  by_cases same : name = className
  · rw [if_pos same, same, lookup_put_self, Option.getD_some]
  · rw [if_neg same, lookup_put_of_ne same]

theorem guardOf_tryLock (name : String) : (table.tryLock className context).2.guardOf name =
    if name = className then ((table.guardOf className).tryAcquire context table.maxWaiters).2
    else table.guardOf name := by
  unfold tryLock
  exact guardOf_put ..

theorem guardOf_tryLock_of_ne {name : String} (different : name ≠ className)
    (locked : (table.tryLock className context).2 = after) :
    after.guardOf name = table.guardOf name := by
  rw [← locked, guardOf_tryLock, if_neg different]

theorem guardOf_unlock (name : String) : (table.unlock className context).2.guardOf name =
    if name = className then ((table.guardOf className).release context).2
    else table.guardOf name := by
  unfold unlock
  cases known : table.guard? className with
  | none =>
      dsimp only
      split
      · rename_i same
        subst same
        simp [guardOf, known, Guard.release]
      · rfl
  | some guard =>
      rw [guardOf_put]
      simp [guardOf, known]

theorem guardOf_withdraw (name : String) :
    (table.withdraw context).guardOf name = (table.guardOf name).withdraw context := by
  unfold guardOf
  rw [guard?_withdraw]
  cases table.guard? name <;> rfl

def Ordered (table : GuardTable) : Prop := ∀ className, (table.guardOf className).Ordered

theorem Ordered.tryLock (ordered : table.Ordered) (className : String) (context : ContextId) :
    (table.tryLock className context).2.Ordered := by
  intro name
  rw [guardOf_tryLock]
  split
  · exact (ordered className).tryAcquire ..
  · exact ordered name

theorem Ordered.unlock (ordered : table.Ordered) (className : String) (context : ContextId) :
    (table.unlock className context).2.Ordered := by
  intro name
  rw [guardOf_unlock]
  split
  · exact (ordered className).release ..
  · exact ordered name

theorem Ordered.withdraw (ordered : table.Ordered) (context : ContextId) :
    (table.withdraw context).Ordered := by
  intro name
  rw [guardOf_withdraw]
  exact (ordered name).withdraw context

theorem involves_tryLock (different : other ≠ context) (name : String) :
    ((table.tryLock className context).2.guardOf name).Involves other ↔
      (table.guardOf name).Involves other := by
  rw [guardOf_tryLock]
  split
  · rename_i same
    rw [same, Guard.involves_tryAcquire different]
  · rfl

theorem involves_unlock (different : other ≠ context) (name : String) :
    ((table.unlock className context).2.guardOf name).Involves other ↔
      (table.guardOf name).Involves other := by
  rw [guardOf_unlock]
  split
  · rename_i same
    rw [same, Guard.involves_release different]
  · rfl

theorem involves_withdraw (different : other ≠ context) (name : String) :
    ((table.withdraw context).guardOf name).Involves other ↔
      (table.guardOf name).Involves other := by
  rw [guardOf_withdraw, Guard.involves_withdraw different]

/-- The context holds each guard as often as it is among those held, and has to do with no other but
those it awaits. -/
structure Exact (table : GuardTable) (context : ContextId) (held awaited : List String) : Prop where
  ordered : table.Ordered
  count : ∀ className, table.depthOf context className = held.count className
  involved : ∀ className, (table.guardOf className).Involves context →
    className ∈ held ∨ className ∈ awaited

namespace Exact

variable {held more awaited : List String}

theorem perm (exact : table.Exact context held awaited) (same : held.Perm more) :
    table.Exact context more awaited where
  ordered := exact.ordered
  count := fun className => (exact.count className).trans (same.count_eq className)
  involved := fun className involves =>
    (exact.involved className involves).imp_left fun among => same.mem_iff.mp among

theorem taken (exact : table.Exact context held awaited) (waits : awaited ⊆ [className])
    (locked : table.tryLock className context = (true, after)) :
    after.Exact context (held ++ [className]) [] where
  ordered := by
    have ordered := exact.ordered.tryLock className context
    rw [locked] at ordered
    exact ordered
  count := by
    intro name
    rw [tryLock_taken locked, count_concat, exact.count]
  involved := by
    intro name involves
    by_cases same : name = className
    · simp [same]
    · rw [guardOf_tryLock_of_ne same (congrArg Prod.snd locked)] at involves
      rcases exact.involved name involves with among | waiting
      · exact Or.inl (List.mem_append_left _ among)
      · exact absurd (List.mem_singleton.mp (waits waiting)) same

theorem refused (exact : table.Exact context held awaited) (waits : awaited ⊆ [className])
    (locked : table.tryLock className context = (false, after)) :
    after.Exact context held [className] where
  ordered := by
    have ordered := exact.ordered.tryLock className context
    rw [locked] at ordered
    exact ordered
  count := by
    intro name
    rw [tryLock_refused locked, exact.count]
  involved := by
    intro name involves
    by_cases same : name = className
    · simp [same]
    · rw [guardOf_tryLock_of_ne same (congrArg Prod.snd locked)] at involves
      rcases exact.involved name involves with among | waiting
      · exact Or.inl among
      · exact absurd (List.mem_singleton.mp (waits waiting)) same

theorem released (exact : table.Exact context (className :: held) awaited) :
    (table.unlock className context).2.Exact context held awaited := by
  have deep : (table.guardOf className).depthOf context = held.count className + 1 := by
    rw [← depthOf_eq, exact.count, List.count_cons_self]
  obtain ⟨fewer, remains⟩ := Guard.release_held (exact.ordered className)
    (Nat.lt_of_lt_of_eq (Nat.succ_pos _) deep.symm)
  rw [deep] at fewer remains
  refine ⟨exact.ordered.unlock className context, fun name => ?_, fun name involves => ?_⟩
  · rw [depthOf_eq, guardOf_unlock]
    split
    · rename_i same
      rw [same]
      exact Nat.add_right_cancel fewer
    · rename_i other
      rw [← depthOf_eq, exact.count, List.count_cons_of_ne (Ne.symm other)]
  · rw [guardOf_unlock] at involves
    split at involves
    · rename_i same
      rw [same]
      exact Or.inl (List.count_pos_iff.mp (Nat.lt_of_succ_lt_succ (remains involves)))
    · rename_i other
      exact (exact.involved name involves).imp_left fun among =>
        (List.mem_cons.mp among).resolve_left other

theorem of_out (ordered : table.Ordered)
    (out : ∀ className, ¬ (table.guardOf className).Involves context) :
    table.Exact context [] [] :=
  ⟨ordered, fun className => Guard.depthOf_of_not_involves (out className),
    fun className involves => absurd involves (out className)⟩

theorem withdrawn (exact : table.Exact context [] awaited) :
    (table.withdraw context).Exact context [] [] := by
  have out : ∀ name, ¬ ((table.withdraw context).guardOf name).Involves context := by
    intro name
    rw [guardOf_withdraw]
    exact Guard.not_involves_withdraw (exact.count name)
  exact .of_out (exact.ordered.withdraw context) out

theorem congr (exact : table.Exact context held awaited) (same : after.guards = table.guards) :
    after.Exact context held awaited where
  ordered := fun className => guardOf_congr same className ▸ exact.ordered className
  count := by
    intro className
    rw [depthOf_eq, guardOf_congr same]
    exact exact.count className
  involved := by
    intro className involves
    rw [guardOf_congr same] at involves
    exact exact.involved className involves

theorem awaiting (exact : table.Exact context held []) (awaited : List String) :
    table.Exact context held awaited where
  ordered := exact.ordered
  count := exact.count
  involved := fun className involves => Or.inl
    ((exact.involved className involves).resolve_right List.not_mem_nil)

theorem retaken (exact : table.Exact context held [])
    (free : ∀ className ∈ more, (table.guardOf className).holder = none ∨
      (table.guardOf className).holder = some context) :
    Exact (more.foldl (fun guards owner => (guards.tryLock owner context).2) table) context
      (held ++ more) [] := by
  induction more generalizing table held with
  | nil => simpa using exact
  | cons className rest ih =>
      have takes : ((table.guardOf className).tryAcquire context table.maxWaiters).1 = true ∧
          ((table.guardOf className).tryAcquire context table.maxWaiters).2.holder =
            some context := by
        rcases free className (List.mem_cons_self ..) with unheld | own
        · simp [Guard.tryAcquire, unheld]
        · simp [Guard.tryAcquire, own]
      have locked : table.tryLock className context =
          (true, (table.tryLock className context).2) := Prod.ext takes.1 rfl
      have behind := ih (exact.taken (List.nil_subset _) locked) fun name among => ?_
      · rw [List.append_assoc] at behind
        exact behind
      · rw [guardOf_tryLock]
        split
        · exact Or.inr takes.2
        · exact free name (List.mem_cons_of_mem _ among)

end Exact

structure Spares (table : GuardTable) (context : ContextId) (after : GuardTable) : Prop where
  ordered : table.Ordered → after.Ordered
  depth : ∀ other, other ≠ context → ∀ className,
    after.depthOf other className = table.depthOf other className
  involves : ∀ other, other ≠ context → ∀ className,
    (after.guardOf className).Involves other ↔ (table.guardOf className).Involves other

namespace Spares

variable {last : GuardTable}

theorem refl (table : GuardTable) (context : ContextId) : table.Spares context table :=
  ⟨id, fun _ _ _ => rfl, fun _ _ _ => Iff.rfl⟩

theorem trans (first : table.Spares context after) (second : after.Spares context last) :
    table.Spares context last where
  ordered := second.ordered ∘ first.ordered
  depth := fun other different className =>
    (second.depth other different className).trans (first.depth other different className)
  involves := fun other different className =>
    (second.involves other different className).trans (first.involves other different className)

theorem tryLock (table : GuardTable) (className : String) (context : ContextId) :
    table.Spares context (table.tryLock className context).2 where
  ordered := fun ordered => ordered.tryLock className context
  depth := fun _ different => tryLock_depthOf_other different
  involves := fun _ different => involves_tryLock different

theorem unlock (table : GuardTable) (className : String) (context : ContextId) :
    table.Spares context (table.unlock className context).2 where
  ordered := fun ordered => ordered.unlock className context
  depth := fun _ different => unlock_depthOf_other different
  involves := fun _ different => involves_unlock different

theorem withdraw (table : GuardTable) (context : ContextId) :
    table.Spares context (table.withdraw context) where
  ordered := fun ordered => ordered.withdraw context
  depth := fun _ different => withdraw_depthOf_other different
  involves := fun _ different => involves_withdraw different

theorem foldl {step : GuardTable → String → GuardTable}
    (spares : ∀ (table : GuardTable) className, table.Spares context (step table className))
    (names : List String) (table : GuardTable) : table.Spares context (names.foldl step table) := by
  induction names generalizing table with
  | nil => exact refl ..
  | cons className rest ih => exact (spares table className).trans (ih _)

theorem exact {held awaited : List String} (spares : table.Spares context after)
    (different : other ≠ context) (exact : table.Exact other held awaited) :
    after.Exact other held awaited where
  ordered := spares.ordered exact.ordered
  count := fun className => (spares.depth other different className).trans (exact.count className)
  involved := fun className involves =>
    exact.involved className ((spares.involves other different className).mp involves)

end Spares

end GuardTable

theorem Effects.spares {code : Code} {context : ContextId} {world changed : World}
    (effects : Effects code context world changed) :
    world.guards.Spares context changed.guards := by
  induction effects with
  | refl => exact .refl ..
  | tail _ effect ih =>
      cases effect with
      | stored | allocated | bound | kept => exact ih
      | locked => exact ih.trans (.tryLock ..)
      | unlocked => exact ih.trans (.unlock ..)

def Tally.exact (context : ContextId) : Tally context where
  holds := fun held awaited table => table.Exact context held awaited
  taken := fun exact waits locked => exact.taken waits locked
  refused := fun exact waits locked => exact.refused waits locked
  released := fun exact => (exact.perm List.perm_append_comm).released
  lenient := False
  dropped := False.elim

namespace Engine

variable {engine : Engine} {stack : Stack}

/-- Giving up a call releases every guard that its frames hold, and leaves every queue. -/
theorem abort_exact {held awaited : List String} (holds : stack.root.heldGuards = held)
    (exact : engine.world.guards.Exact stack.context held awaited) :
    (engine.abort stack).1.world.guards.Exact stack.context [] [] := by
  unfold abort
  rw [holds]
  clear holds
  dsimp only
  generalize engine.world.guards = table at exact ⊢
  induction held generalizing table with
  | nil => exact exact.withdrawn
  | cons owner rest ih => exact ih _ exact.released

theorem abort_spares (engine : Engine) (stack : Stack) :
    engine.world.guards.Spares stack.context (engine.abort stack).1.world.guards :=
  (GuardTable.Spares.foldl (fun _ _ => .unlock _ _ stack.context)
    stack.root.heldGuards engine.world.guards).trans (.withdraw _ _)

/-- Driving a call that can go on keeps the count of its guards. -/
theorem drive_exact {past : Past} (fits : past.Fits engine.code)
    (shape : CallFrame past stack.root)
    (exact : engine.world.guards.Exact stack.context stack.root.heldGuards stack.root.awaited)
    (continues : stack.root.continues engine.code engine.world.heap engine.code.maxCallDepth = true)
    (gate : Gate) :
    (engine.drive stack gate).engine.world.guards.Exact stack.context
      (engine.drive stack gate).stack.root.heldGuards
      (engine.drive stack gate).stack.root.awaited :=
  (drive_kept (.exact stack.context) fits shape ⟨exact, Or.inr continues⟩ gate).2

end Engine

end ScriptEngine
