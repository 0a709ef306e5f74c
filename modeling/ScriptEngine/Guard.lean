import ScriptEngine.Identity
/-! Guards of synchronized methods. A guard has one holder at a time, which may take it again while
it holds it; other contexts queue, and the last release hands the guard to the first of them. A
context that was handed the guard holds it with depth zero until it takes it up. -/

namespace ScriptEngine

structure Guard where
  holder : Option ContextId := none
  /-- Acquisitions that the holder has not released. -/
  depth : Nat := 0
  waiters : List ContextId := []
deriving DecidableEq, Repr, Inhabited

namespace Guard

def handOver (guard : Guard) : Guard :=
  ⟨guard.waiters.head?, 0, guard.waiters.tail⟩

/-- Try to take the guard. A context that is refused queues, once, if fewer than `limit` wait. -/
def tryAcquire (guard : Guard) (context : ContextId) (limit : Nat) : Bool × Guard :=
  match guard.holder with
  | none => (true, ⟨some context, 1, guard.waiters.filter (· ≠ context)⟩)
  | some holder =>
      if holder = context then (true, { guard with depth := guard.depth + 1 })
      else if context ∉ guard.waiters && guard.waiters.length < limit then
        (false, { guard with waiters := guard.waiters ++ [context] })
      else (false, guard)

theorem tryAcquire_of_refused {guard : Guard} {context : ContextId} {limit : Nat}
    (denied : (guard.tryAcquire context limit).1 = false) :
    (guard.tryAcquire context limit).2.tryAcquire context limit =
      (false, (guard.tryAcquire context limit).2) := by
  cases held : guard.holder with
  | none => simp [tryAcquire, held] at denied
  | some holder =>
      by_cases own : holder = context
      · simp [tryAcquire, held, own] at denied
      · by_cases queues : context ∉ guard.waiters ∧ guard.waiters.length < limit
        · simp [tryAcquire, held, own, queues]
        · simp only [tryAcquire, held, own, if_false, Bool.and_eq_true, decide_eq_true_eq, queues]

def release (guard : Guard) (context : ContextId) : Bool × Guard :=
  if guard.holder ≠ some context || guard.depth = 0 then (false, guard)
  else if guard.depth = 1 then (true, guard.handOver)
  else (true, { guard with depth := guard.depth - 1 })

/-- Drop the context from the queue, and hand on a guard that it was handed and did not take up. -/
def withdraw (guard : Guard) (context : ContextId) : Guard :=
  let left := { guard with waiters := guard.waiters.filter (· ≠ context) }
  if guard.holder = some context && guard.depth = 0 then left.handOver else left

def isLocked (guard : Guard) : Bool := 0 < guard.depth

end Guard

/-- The guards of the classes that were ever asked for theirs. -/
structure GuardTable where
  guards : List (String × Guard) := []
  /-- How many contexts may queue for one guard. -/
  maxWaiters : Nat := 5
deriving DecidableEq, Repr, Inhabited

namespace GuardTable

def guard? (table : GuardTable) (className : String) : Option Guard :=
  table.guards.lookup className

def put (className : String) (guard : Guard) : List (String × Guard) → List (String × Guard)
  | [] => [(className, guard)]
  | entry :: rest =>
      if entry.1 = className then (className, guard) :: rest else entry :: put className guard rest

theorem lookup_put_self (className : String) (guard : Guard) (guards : List (String × Guard)) :
    (put className guard guards).lookup className = some guard := by
  induction guards with
  | nil => simp [put]
  | cons entry rest ih =>
      obtain ⟨name, kept⟩ := entry
      simp only [put]
      split
      · simp
      · rename_i other
        rw [List.lookup_cons, beq_false_of_ne (Ne.symm other)]
        exact ih

theorem lookup_put_of_ne {className other : String} (different : other ≠ className) (guard : Guard)
    (guards : List (String × Guard)) :
    (put className guard guards).lookup other = guards.lookup other := by
  induction guards with
  | nil => simp [put, List.lookup_cons, beq_false_of_ne different]
  | cons entry rest ih =>
      obtain ⟨name, kept⟩ := entry
      simp only [put]
      split
      · rename_i same
        subst same
        simp [List.lookup_cons, beq_false_of_ne different]
      · simp only [List.lookup_cons, ih]

theorem put_put (className : String) (guard later : Guard) (guards : List (String × Guard)) :
    put className later (put className guard guards) = put className later guards := by
  induction guards with
  | nil => simp [put]
  | cons entry rest ih =>
      simp only [put]
      split
      · simp [put]
      · rename_i other
        simp [put, other, ih]

def tryLock (table : GuardTable) (className : String) (context : ContextId) : Bool × GuardTable :=
  let (taken, guard) := ((table.guard? className).getD {}).tryAcquire context table.maxWaiters
  (taken, { table with guards := put className guard table.guards })

theorem tryLock_of_refused {table refused : GuardTable} {className : String} {context : ContextId}
    (first : table.tryLock className context = (false, refused)) :
    refused.tryLock className context = (false, refused) := by
  simp only [tryLock, guard?, Prod.mk.injEq] at first
  obtain ⟨denied, rfl⟩ := first
  simp only [tryLock, guard?, lookup_put_self, Option.getD_some,
    Guard.tryAcquire_of_refused denied, put_put]

def unlock (table : GuardTable) (className : String) (context : ContextId) : Bool × GuardTable :=
  match table.guard? className with
  | none => (false, table)
  | some guard =>
      let (released, guard) := guard.release context
      (released, { table with guards := put className guard table.guards })

def withdraw (table : GuardTable) (context : ContextId) : GuardTable :=
  { table with guards := table.guards.map fun (name, guard) => (name, guard.withdraw context) }

end GuardTable

end ScriptEngine
