import ScriptEngine.Proofs.Rereading
import ScriptEngine.Proofs.SinglePath
/-! What becomes of a stack that is saved as text and loaded again. Every stack a host can come to
is read back as it was without bindings, unless its document nests too deep or a float on it is not
read as what it was. -/

namespace ScriptEngine

namespace Value

def floats : Value → List Float
  | .float number => [number]
  | _ => []

theorem reread_eq_iff {value : Value} :
    value.reread = some value ↔
      ∀ number ∈ value.floats, (Json.ofFloat number).float? = some number := by
  cases value <;> simp [reread, floats]

end Value

namespace Variable

def floats (var : Variable) : List Float := var.value.floats

theorem reread_eq_iff {var : Variable} :
    var.reread = some (var.bind .unbound) ↔
      ∀ number ∈ var.floats, (Json.ofFloat number).float? = some number := by
  rw [floats, ← Value.reread_eq_iff, reread]
  cases var.value.reread <;> simp [bind]

end Variable

theorem mapM_eq_some_map_iff {α β : Type} {read : α → Option β} {result : α → β} {values : List α} :
    values.mapM read = some (values.map result) ↔
      ∀ value ∈ values, read value = some (result value) := by
  induction values with
  | nil => simp
  | cons value more ih =>
      rw [List.mapM_cons, List.map_cons, List.forall_mem_cons, ← ih]
      simp [Option.bind_eq_some_iff]

theorem mapM_eq_some_iff {α : Type} {read : α → Option α} {values : List α} :
    values.mapM read = some values ↔ ∀ value ∈ values, read value = some value := by
  have each := @mapM_eq_some_map_iff _ _ read id values
  rwa [List.map_id] at each

namespace Frame

mutual

def floats : Frame → List Float
  | ⟨_, vars, temps, children⟩ =>
      vars.flatMap Variable.floats ++ temps.flatMap Value.floats ++ floatsIn children

def floatsIn : List (Nat × Frame) → List Float
  | [] => []
  | (_, child) :: rest => child.floats ++ floatsIn rest

end

theorem vars_reread_iff {vars : Variables} :
    vars.mapM Variable.reread = some (vars.map fun var => var.bind .unbound) ↔
      ∀ number ∈ vars.flatMap Variable.floats, (Json.ofFloat number).float? = some number := by
  rw [mapM_eq_some_map_iff, List.forall_mem_flatMap]
  exact forall₂_congr fun var _ => Variable.reread_eq_iff

theorem temps_reread_iff {temps : List Value} :
    temps.mapM Value.reread = some temps ↔
      ∀ number ∈ temps.flatMap Value.floats, (Json.ofFloat number).float? = some number := by
  rw [mapM_eq_some_iff, List.forall_mem_flatMap]
  exact forall₂_congr fun temp _ => Value.reread_eq_iff

mutual

theorem reread_eq_iff : ∀ {frame : Frame}, frame.reread = some frame.unbound ↔
    ∀ number ∈ frame.floats, (Json.ofFloat number).float? = some number
  | ⟨state, vars, temps, children⟩ => by
      rw [floats, List.forall_mem_append, List.forall_mem_append, ← vars_reread_iff,
        ← temps_reread_iff, ← rereadIn_eq_iff, reread, unbound]
      simp [Option.bind_eq_some_iff, and_assoc]

theorem rereadIn_eq_iff : ∀ {children : List (Nat × Frame)},
    rereadIn children = some (unboundIn children) ↔
      ∀ number ∈ floatsIn children, (Json.ofFloat number).float? = some number
  | [] => by simp [rereadIn, unboundIn, floatsIn]
  | (slot, child) :: rest => by
      rw [floatsIn, List.forall_mem_append, ← reread_eq_iff, ← rereadIn_eq_iff, rereadIn,
        unboundIn]
      simp [Option.bind_eq_some_iff]

end

@[simp] theorem isOrdered_single (state : FrameState) (vars : Variables) (temps : List Value)
    (slot : Nat) (child : Frame) :
    isOrdered ⟨state, vars, temps, [(slot, child)]⟩ = child.isOrdered := by
  simp [isOrdered, areOrdered]

end Frame

theorem Paused.isOrdered {known : List Function} {classes : ClassTable} {part : Part}
    {frame : Frame} (paused : Paused known classes part frame) : frame.isOrdered = true := by
  induction paused with
  | operand _ _ ih | callee _ _ ih | value _ _ ih | nested _ ih | block _ _ ih
  | running _ _ _ ih => simpa using ih
  | waiting | queued | declined => rfl

theorem Stack.Rests.isOrdered {known : List Function} {classes : ClassTable} {stack : Stack}
    (rests : stack.Rests known classes) : stack.root.isOrdered = true := by
  rcases rests with fresh | ⟨function, paused⟩
  · rw [fresh]
    rfl
  · exact paused.isOrdered

namespace EntryCall

def unbound (entry : EntryCall) : EntryCall :=
  { entry with args := entry.args.map fun var => var.bind .unbound }

def floats (entry : EntryCall) : List Float := entry.args.flatMap Variable.floats

theorem reread_eq_iff {entry : EntryCall} : entry.reread = some entry.unbound ↔
    ∀ number ∈ entry.floats, (Json.ofFloat number).float? = some number := by
  rw [floats, ← Frame.vars_reread_iff, reread]
  cases entry.args.mapM Variable.reread <;> simp [unbound]

end EntryCall

namespace Stack

/-- The stack with no variable bound to anything, the arguments of its call among them. -/
def cleared (stack : Stack) : Stack :=
  { stack.unbound with entry := stack.entry.map EntryCall.unbound }

def floats (stack : Stack) : List Float :=
  stack.entry.toList.flatMap EntryCall.floats ++ stack.root.floats

theorem reread_eq_iff {stack : Stack} : stack.reread = some stack.cleared ↔
    ∀ number ∈ stack.floats, (Json.ofFloat number).float? = some number := by
  have entry : stack.entry.mapM EntryCall.reread = some (stack.entry.map EntryCall.unbound) ↔
      ∀ number ∈ stack.entry.toList.flatMap EntryCall.floats,
        (Json.ofFloat number).float? = some number := by
    cases stack.entry with
    | none => simp
    | some entry => simp [← EntryCall.reread_eq_iff]
  rw [floats, List.forall_mem_append, ← entry, ← Frame.reread_eq_iff, reread]
  simp [Option.bind_eq_some_iff, cleared, unbound]

end Stack

namespace Snapshot

open Json

mutual

theorem height_le_depth : ∀ frame : Frame, 2 * frame.height ≤ (encodeFrame frame).depth
  | ⟨state, vars, temps, children⟩ => by
      have nested := heights_le_depth children
      rw [encodeFrame, depth_ofMembers, Frame.height]
      simp only [List.map_cons, List.map_nil, itemsDepth, depth]
      omega

theorem heights_le_depth : ∀ children : List (Nat × Frame),
    2 * Frame.heights children ≤ membersDepth (encodeChildren children)
  | [] => Nat.zero_le _
  | (slot, child) :: rest => by
      have first := height_le_depth child
      have others := heights_le_depth rest
      rw [Frame.heights, encodeChildren, membersDepth]
      omega

end

theorem root_lt_depth (stack : Stack) :
    (encodeFrame stack.root).depth < (encodeStack stack).depth := by
  rw [encodeStack, depth_ofMembers]
  simp only [List.map_cons, List.map_nil, itemsDepth]
  omega

end Snapshot

namespace Host

open Snapshot

variable {host : Host} {stack : Stack}

/-- A saved stack is loaded as what its document says of its values, or is refused. -/
theorem Reachable.load (reachable : host.Reachable) (among : stack ∈ host.executions)
    (fits : stack.fits = true) :
    loadStack? (saveStack stack) = within maxLevels (encodeStack stack).depth stack.reread := by
  obtain ⟨known, resting⟩ := reachable.resting
  exact (reads_stack fits (resting.rests stack among).isOrdered).load

theorem Reachable.load_deep (reachable : host.Reachable) (among : stack ∈ host.executions)
    (fits : stack.fits = true) (deep : 63 < stack.root.height) :
    loadStack? (saveStack stack) = none := by
  have root := height_le_depth stack.root
  have whole := root_lt_depth stack
  rw [reachable.load among fits]
  exact if_neg (by unfold maxLevels; omega)

end Host

open Snapshot in
/-- Whatever was done before, a stack that is saved is loaded as it was, without bindings, exactly
if its document is not too deep and every float on it is read as what it was. -/
theorem saved_stacks_load_again {host : Host} (reachable : host.Reachable) (stack : Stack)
    (among : stack ∈ host.executions) (fits : stack.fits = true) :
    loadStack? (saveStack stack) = some stack.cleared ↔
      (encodeStack stack).depth ≤ maxLevels ∧
        ∀ number ∈ stack.floats, (Json.ofFloat number).float? = some number := by
  rw [reachable.load among fits, ← Stack.reread_eq_iff]
  unfold within
  split <;> simp_all

def charging : List Operation :=
  [.register { name := "Robot", fields := [⟨"energy", .double, false⟩] },
    .compile "robot" "class Robot \x7b
      double charge(double n) \x7b double half = n / 2.0; wait(2); return half; \x7d
    \x7d",
    .newInstance "Robot", .newStack ⟨1⟩,
    .callMethod 0 ⟨0, 0⟩ "charge" [.holding "" .double (.float 1.5)] .unlimited]

open Snapshot in
theorem saved_stacks_load_again_of_charging : ∃ stack ∈ (Host.after charging).executions,
    stack.isSuspended = true ∧ stack.fits = true ∧ stack.floats = [1.5, 1.5, 0.75] ∧
    (encodeStack stack).depth ≤ maxLevels ∧ loadStack? (saveStack stack) = some stack.cleared := by
  have shown : ((Host.after charging).executions.any fun stack => stack.isSuspended &&
      stack.fits && decide (stack.floats = [1.5, 1.5, 0.75]) &&
      decide ((encodeStack stack).depth ≤ maxLevels)) = true := by
    decide +kernel
  have exactly : ∀ number ∈ ([1.5, 1.5, 0.75] : List Float),
      (Json.ofFloat number).float? = some number := by
    decide +kernel
  obtain ⟨stack, among, shown⟩ := List.any_eq_true.mp shown
  simp only [Bool.and_eq_true, decide_eq_true_eq] at shown
  obtain ⟨⟨⟨suspended, fits⟩, floats⟩, shallow⟩ := shown
  refine ⟨stack, among, suspended, fits, floats, shallow, ?_⟩
  exact (saved_stacks_load_again (Host.after_reachable charging) stack among fits).mpr
    ⟨shallow, floats ▸ exactly⟩

def overflowing : List Operation :=
  [.compile "main" "double main() \x7b double a = 1e308 * 10.0; wait(1); return a; \x7d",
    .newStack ⟨1⟩, .call 0 "main" [] .unlimited]

/-- A function has called itself 21 times, of 127 times that it may, when its body is declined. -/
def descending : List Operation :=
  [.compile "main" "int main() \x7b return main(); \x7d", .newStack ⟨1⟩,
    .call 0 "main" [] (.budget 21)]

open Snapshot in
/-- Neither stack can be loaded again. -/
theorem saved_stacks_lost :
    (∃ stack ∈ (Host.after overflowing).executions, stack.isSuspended = true ∧
      stack.fits = true ∧ (encodeStack stack).depth ≤ maxLevels ∧
      loadStack? (saveStack stack) = none) ∧
    ∃ stack ∈ (Host.after descending).executions, stack.isSuspended = true ∧
      stack.fits = true ∧ stack.floats = [] ∧ loadStack? (saveStack stack) = none := by
  constructor
  · have shown : ((Host.after overflowing).executions.any fun stack => stack.isSuspended &&
        stack.fits && decide ((encodeStack stack).depth ≤ maxLevels) &&
        stack.reread.isNone) = true := by
      decide +kernel
    obtain ⟨stack, among, shown⟩ := List.any_eq_true.mp shown
    simp only [Bool.and_eq_true, decide_eq_true_eq, Option.isNone_iff_eq_none] at shown
    obtain ⟨⟨⟨suspended, fits⟩, shallow⟩, unread⟩ := shown
    refine ⟨stack, among, suspended, fits, shallow, ?_⟩
    rw [(Host.after_reachable overflowing).load among fits, unread]
    exact if_pos shallow
  · have shown : ((Host.after descending).executions.any fun stack => stack.isSuspended &&
        stack.fits && decide (stack.floats = []) && decide (63 < stack.root.height)) = true := by
      decide +kernel
    obtain ⟨stack, among, shown⟩ := List.any_eq_true.mp shown
    simp only [Bool.and_eq_true, decide_eq_true_eq] at shown
    obtain ⟨⟨⟨suspended, fits⟩, floats⟩, deep⟩ := shown
    exact ⟨stack, among, suspended, fits, floats,
      (Host.after_reachable descending).load_deep among fits deep⟩

end ScriptEngine
