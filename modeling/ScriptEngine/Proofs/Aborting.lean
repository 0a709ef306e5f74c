import ScriptEngine.Proofs.GuardCounts
import ScriptEngine.Proofs.Hosting
/-! Giving up a call. The guards that the frames hold are released one by one and every queue is left;
together that takes the context of the stack out of each guard, as if it had never asked for it, and
touches nothing else. -/

namespace ScriptEngine

namespace Guard

variable {guard : Guard} {context other : ContextId}

/-- A guard that a context has no more to do with: one that it held or was handed goes to the first of
the others that wait. -/
def leftBy (context : ContextId) (guard : Guard) : Guard :=
  let others := guard.waiters.filter (· ≠ context)
  if guard.holder = some context then ⟨others.head?, 0, others.tail⟩
  else { guard with waiters := others }

theorem not_involves_leftBy (guard : Guard) (context : ContextId) :
    ¬ (guard.leftBy context).Involves context := by
  have gone : context ∉ guard.waiters.filter (· ≠ context) := by simp
  unfold leftBy Involves
  dsimp only
  split
  · rintro (first | behind)
    · exact gone (List.mem_of_head? first)
    · exact gone (List.mem_of_mem_tail behind)
  · rename_i other
    rintro (holds | waits)
    · exact other holds
    · exact gone waits

theorem leftBy_of_not_involves (out : ¬ guard.Involves context) : guard.leftBy context = guard := by
  obtain ⟨holder, waiting⟩ := not_or.mp out
  have all : guard.waiters.filter (· ≠ context) = guard.waiters := by
    refine List.filter_eq_self.mpr fun other among => ?_
    simpa using ne_of_mem_of_not_mem among waiting
  unfold leftBy
  rw [if_neg holder, all]

theorem release_of_not_held (idle : guard.holder = some context → guard.depth = 0) :
    (guard.release context).2 = guard := by
  unfold release
  rw [if_pos]
  by_cases holds : guard.holder = some context
  · simp [idle holds]
  · simp [holds]

theorem release_all {depth : Nat} (holds : guard.holder = some context)
    (deep : guard.depth = depth + 1) :
    (fun guard => (release guard context).2)^[depth + 1] guard = guard.handOver := by
  induction depth generalizing guard with
  | zero => simp [release, holds, deep]
  | succ depth ih =>
      have less : (guard.release context).2 = { guard with depth := depth + 1 } := by
        simp [release, holds, deep]
      rw [Function.iterate_succ_apply, less]
      exact ih holds rfl

theorem withdraw_handOver (guard : Guard) (context : ContextId) :
    guard.handOver.withdraw context =
      ⟨(guard.waiters.filter (· ≠ context)).head?, 0,
        (guard.waiters.filter (· ≠ context)).tail⟩ := by
  cases waiting : guard.waiters with
  | nil => simp [handOver, withdraw, waiting]
  | cons first rest =>
      by_cases own : first = context
      · simp [handOver, withdraw, waiting, own]
      · simp [handOver, withdraw, waiting, own]

theorem withdraw_released {count : Nat}
    (balanced : guard.holder = some context → 0 < guard.depth → guard.depth = count) :
    ((fun guard => (release guard context).2)^[count] guard).withdraw context =
      guard.leftBy context := by
  by_cases held : guard.holder = some context ∧ 0 < guard.depth
  · obtain ⟨holds, deep⟩ := held
    obtain ⟨depth, same⟩ := Nat.exists_eq_add_one.mpr deep
    rw [← balanced holds deep, same, release_all holds same, withdraw_handOver, leftBy, if_pos holds]
  · have idle : guard.holder = some context → guard.depth = 0 := fun holds =>
      Nat.eq_zero_of_not_pos fun deep => held ⟨holds, deep⟩
    rw [Function.iterate_fixed (release_of_not_held idle), withdraw, leftBy]
    by_cases holds : guard.holder = some context
    · simp [holds, idle holds, handOver]
    · simp [holds]

end Guard

namespace GuardTable

variable {table : GuardTable} {context : ContextId}

theorem guard?_unlock (table : GuardTable) (className name : String) (context : ContextId) :
    (table.unlock className context).2.guard? name =
      if name = className then (table.guard? name).map fun guard => (guard.release context).2
      else table.guard? name := by
  unfold unlock
  cases known : table.guard? className with
  | none =>
      dsimp only
      split
      · rename_i same
        rw [same, known]
        rfl
      · rfl
  | some guard =>
      dsimp only
      split
      · rename_i same
        rw [same, known]
        exact lookup_put_self ..
      · rename_i different
        exact lookup_put_of_ne different ..

theorem guard?_unlocked (names : List String) (table : GuardTable) (name : String) :
    (names.foldl (fun guards owner => (guards.unlock owner context).2) table).guard? name =
      (table.guard? name).map
        (fun guard => (Guard.release guard context).2)^[names.count name] := by
  induction names generalizing table with
  | nil => exact (Option.map_id' ..).symm
  | cons owner rest ih =>
      rw [List.foldl_cons, ih, guard?_unlock]
      by_cases same : name = owner
      · subst same
        rw [if_pos rfl, Option.map_map, List.count_cons_self]
        rfl
      · rw [if_neg same, List.count_cons_of_ne (Ne.symm same)]

theorem unlocked_maxWaiters (names : List String) (table : GuardTable) :
    (names.foldl (fun guards owner => (guards.unlock owner context).2) table).maxWaiters =
      table.maxWaiters := by
  induction names generalizing table with
  | nil => rfl
  | cons owner rest ih =>
      rw [List.foldl_cons, ih]
      unfold unlock
      split <;> rfl

end GuardTable

/-- A stack whose frames hold each guard as often as its context has taken it. Giving up its call
makes it idle, takes its context out of every guard, and changes no other guard and nothing else. -/
theorem Engine.abort_gives_back (engine : Engine) (stack : Stack)
    (balanced : ∀ className guard, engine.world.guards.guard? className = some guard →
      guard.holder = some stack.context → 0 < guard.depth →
        guard.depth = stack.root.bodiesOf className) :
    ∃ guards : GuardTable,
      engine.abort stack =
        ({ engine with world := { engine.world with guards } },
          { stack with entry := none, root := {} }) ∧
      guards.maxWaiters = engine.world.guards.maxWaiters ∧
      (∀ className, guards.guard? className =
        (engine.world.guards.guard? className).map (Guard.leftBy stack.context)) ∧
      (∀ className, ¬ (guards.guardOf className).Involves stack.context) ∧
      ∀ className, ¬ (engine.world.guards.guardOf className).Involves stack.context →
        guards.guard? className = engine.world.guards.guard? className := by
  have left : ∀ className, (engine.abort stack).1.world.guards.guard? className =
      (engine.world.guards.guard? className).map (Guard.leftBy stack.context) := by
    intro className
    simp only [abort, GuardTable.guard?_withdraw, GuardTable.guard?_unlocked,
      Frame.count_heldGuards, Option.map_map]
    refine Option.map_congr fun guard found => ?_
    exact Guard.withdraw_released (balanced className guard found)
  refine ⟨(engine.abort stack).1.world.guards, rfl, GuardTable.unlocked_maxWaiters ..,
    left, fun className => ?_, fun className out => ?_⟩
  · rw [GuardTable.guardOf, left]
    cases engine.world.guards.guard? className with
    | none => simp [Guard.Involves]
    | some guard => exact guard.not_involves_leftBy stack.context
  · rw [left]
    rw [GuardTable.guardOf] at out
    cases known : engine.world.guards.guard? className with
    | none => rfl
    | some guard =>
        rw [known, Option.getD_some] at out
        rw [Option.map_some, Guard.leftBy_of_not_involves out]

def filling : List Operation :=
  [.register { name := "Tank" }, .register { name := "Door" },
    .compile "works" "class Tank \x7b
        synchronized int fill() { return 1 + this.drain(); }
        synchronized int drain() { wait(1); return 2; }
      \x7d
      class Door { synchronized int pass() { wait(1); return 1; } }",
    .newInstance "Tank", .newInstance "Door",
    .newStack ⟨1⟩, .newStack ⟨1⟩, .newStack ⟨1⟩, .newStack ⟨1⟩,
    .callMethod 0 ⟨0, 0⟩ "fill" [] .unlimited, .callMethod 1 ⟨0, 0⟩ "fill" [] .unlimited,
    .callMethod 2 ⟨0, 0⟩ "drain" [] .unlimited, .callMethod 3 ⟨1, 0⟩ "pass" [] .unlimited]

theorem Engine.abort_gives_back_of_filling : ∃ stack guards,
    (Host.after filling).executions[0]? = some stack ∧
    (∀ className guard, (Host.after filling).engine.world.guards.guard? className = some guard →
      guard.holder = some stack.context → 0 < guard.depth →
        guard.depth = stack.root.bodiesOf className) ∧
    (Host.after filling).engine.world.guards.guard? "Tank" = some ⟨some ⟨1⟩, 2, [⟨2⟩, ⟨3⟩]⟩ ∧
    (Host.after filling).engine.abort stack =
      ({ (Host.after filling).engine with world :=
          { (Host.after filling).engine.world with guards } },
        { stack with entry := none, root := {} }) ∧
    guards.guard? "Tank" = some ⟨some ⟨2⟩, 0, [⟨3⟩]⟩ ∧
    guards.guard? "Door" = some ⟨some ⟨4⟩, 1, []⟩ := by
  have shown : (Host.after filling).engine.world.guards.guard? "Tank" =
        some ⟨some ⟨1⟩, 2, [⟨2⟩, ⟨3⟩]⟩ ∧
      (Host.after filling).engine.world.guards.guard? "Door" = some ⟨some ⟨4⟩, 1, []⟩ ∧
      ((Host.after filling).executions[0]?.any fun stack => stack.context = ⟨1⟩ &&
        (Host.after filling).engine.world.guards.guards.all fun entry =>
          decide (entry.2.holder = some stack.context → 0 < entry.2.depth →
            entry.2.depth = stack.root.bodiesOf entry.1)) = true := by
    decide +kernel
  obtain ⟨tank, door, checked⟩ := shown
  obtain ⟨stack, found, checked⟩ := (Option.any_eq_true ..).mp checked
  simp only [Bool.and_eq_true, List.all_eq_true, decide_eq_true_eq] at checked
  obtain ⟨context, checked⟩ := checked
  have balanced : ∀ className guard,
      (Host.after filling).engine.world.guards.guard? className = some guard →
        guard.holder = some stack.context → 0 < guard.depth →
          guard.depth = stack.root.bodiesOf className := by
    intro className guard known
    obtain ⟨before, behind, split, _⟩ := List.lookup_eq_some_iff.mp known
    exact checked (className, guard) (by simp [split])
  obtain ⟨guards, given, _, left, _⟩ := Engine.abort_gives_back _ stack balanced
  refine ⟨stack, guards, found, balanced, tank, given, ?_, ?_⟩
  · rw [left, tank, context]
    rfl
  · rw [left, door, context]
    rfl

end ScriptEngine
