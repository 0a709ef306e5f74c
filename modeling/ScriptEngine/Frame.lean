import ScriptEngine.Variable
/-! The state of a call that has not ended. Every statement, operand and call in progress has a
frame, a child of the frame it is part of; operands that are already computed are kept as
temporaries. A frame tree says where to go on, so nothing done is done again. -/

namespace ScriptEngine

/-- How a function is called: freely, on the object of its program, or on a receiver. -/
inductive CallKind where
  | function
  | method
  | dispatched (isSynchronized : Bool)
deriving DecidableEq, Repr

namespace CallKind

def bindsInstance : CallKind → Bool
  | .function => false
  | _ => true

def isDispatched : CallKind → Bool
  | .dispatched _ => true
  | _ => false

def isSynchronized : CallKind → Bool
  | .dispatched isSynchronized => isSynchronized
  | _ => false

end CallKind

/-- What a call does next. -/
inductive CallStep where
  | bindParams
  | bindInstance
  | acquireGuard
  | runBody
deriving DecidableEq, Repr

def CallStep.next (kind : CallKind) : CallStep → CallStep
  | .bindParams => if kind.bindsInstance then .bindInstance else .runBody
  | .bindInstance => if kind.isSynchronized then .acquireGuard else .runBody
  | .acquireGuard | .runBody => .runBody

/-- A call in progress. -/
structure Call where
  function : FunctionId
  program : ProgramId
  kind : CallKind
  step : CallStep := .bindParams
  owner : Option String := none
deriving DecidableEq, Repr

namespace Call

def holdsGuard (call : Call) : Bool := call.kind.isSynchronized && call.step = .runBody

def heldGuard? (call : Call) : Option String := if call.holdsGuard then call.owner else none

def advance (call : Call) : Call := { call with step := call.step.next call.kind }

end Call

inductive FrameState where
  | fresh
  | call (call : Call)
  /-- A block that goes on at statement `next`. -/
  | block (next : Nat)
  /-- A wait that yields `remaining` times more. -/
  | wait (remaining : Nat)
  /-- An expression whose operands are being computed. -/
  | eval
deriving DecidableEq, Repr

/-- The children are in the order of their slots, each slot once. Variables belong to calls only. -/
structure Frame where
  state : FrameState := .fresh
  vars : Variables := []
  temps : List Value := []
  children : List (Nat × Frame) := []

namespace Frame

instance : Inhabited Frame := ⟨{}⟩

def isFresh (frame : Frame) : Bool := frame.state = .fresh

def call? (frame : Frame) : Option Call :=
  match frame.state with
  | .call call => some call
  | _ => none

def holdsGuard (frame : Frame) : Bool :=
  match frame.call? with
  | some call => call.holdsGuard
  | none => false

def heldGuard? (frame : Frame) : Option String := frame.call?.bind Call.heldGuard?

def child? (frame : Frame) (slot : Nat) : Option Frame := frame.children.lookup slot

def child (frame : Frame) (slot : Nat) : Frame := (frame.child? slot).getD {}

def place (slot : Nat) (child : Frame) : List (Nat × Frame) → List (Nat × Frame)
  | [] => [(slot, child)]
  | entry :: rest =>
      if slot < entry.1 then (slot, child) :: entry :: rest
      else if slot = entry.1 then (slot, child) :: rest
      else entry :: place slot child rest

def withChild (frame : Frame) (slot : Nat) (child : Frame) : Frame :=
  { frame with children := place slot child frame.children }

def withoutChild (frame : Frame) (slot : Nat) : Frame :=
  { frame with children := frame.children.filter fun entry => entry.1 ≠ slot }

theorem lookup_place (slot : Nat) (child : Frame) (children : List (Nat × Frame)) :
    (place slot child children).lookup slot = some child := by
  induction children with
  | nil => simp [place]
  | cons entry rest ih =>
      obtain ⟨key, kept⟩ := entry
      simp only [place]
      split
      · simp
      · split
        · simp
        · rename_i different
          rw [List.lookup_cons, beq_false_of_ne different]
          exact ih

theorem mem_place {slot : Nat} {child : Frame} {entry : Nat × Frame}
    {children : List (Nat × Frame)} (among : entry ∈ place slot child children) :
    entry = (slot, child) ∨ entry ∈ children := by
  induction children with
  | nil => exact Or.inl (List.mem_singleton.mp among)
  | cons first rest ih =>
      rw [place] at among
      split at among
      · exact (List.mem_cons.mp among).imp_right id
      · split at among
        · exact (List.mem_cons.mp among).imp_right (List.mem_cons_of_mem _)
        · rcases List.mem_cons.mp among with rfl | behind
          · exact Or.inr (List.mem_cons_self ..)
          · exact (ih behind).imp_right (List.mem_cons_of_mem _)

@[simp] theorem child_withChild (frame : Frame) (slot : Nat) (child : Frame) :
    (frame.withChild slot child).child slot = child := by
  simp [Frame.child, child?, withChild, lookup_place]

@[simp] theorem temps_withChild (frame : Frame) (slot : Nat) (child : Frame) :
    (frame.withChild slot child).temps = frame.temps := rfl

@[simp] theorem withoutChild_withChild (frame : Frame) (slot : Nat) (child : Frame) :
    (frame.withChild slot child).withoutChild slot = frame.withoutChild slot := by
  have removed : ∀ children : List (Nat × Frame),
      (place slot child children).filter (fun entry => entry.1 ≠ slot) =
        children.filter fun entry => entry.1 ≠ slot := by
    intro children
    induction children with
    | nil => simp [place]
    | cons entry rest ih =>
        simp only [place]
        split
        · simp
        · split
          · rename_i same
            simp [← same]
          · rw [List.filter_cons, List.filter_cons, ih]
  simp only [withoutChild, withChild, removed]

@[simp] theorem temps_withoutChild (frame : Frame) (slot : Nat) :
    (frame.withoutChild slot).temps = frame.temps := rfl

mutual

def height : Frame → Nat
  | ⟨_, _, _, children⟩ => heights children + 1

def heights : List (Nat × Frame) → Nat
  | [] => 0
  | (_, child) :: rest => max child.height (heights rest)

end

mutual

/-- The classes whose guards the calls of a frame tree hold, once for each call. -/
def heldGuards : Frame → List String
  | ⟨state, _, _, children⟩ =>
      let nested := heldGuardsIn children
      match state with
      | .call call => call.heldGuard?.toList ++ nested
      | _ => nested

def heldGuardsIn : List (Nat × Frame) → List String
  | [] => []
  | (_, child) :: rest => child.heldGuards ++ heldGuardsIn rest

end

def clearProgress (frame : Frame) : Frame := { frame with temps := [], children := [] }

def startEval (frame : Frame) : Frame :=
  if frame.state = .eval then frame else { frame.clearProgress with state := .eval }

@[simp] theorem state_startEval (frame : Frame) : frame.startEval.state = .eval := by
  simp only [startEval]
  split
  · assumption
  · rfl

@[simp] theorem startEval_of_eval {frame : Frame} (evaluating : frame.state = .eval) :
    frame.startEval = frame := if_pos evaluating

def nextStatement (frame : Frame) : Nat :=
  match frame.state with
  | .block next => next
  | _ => 0

theorem block_of_block {frame : Frame} (block : frame.state = .block frame.nextStatement) :
    { frame with state := .block frame.nextStatement } = frame := by
  rw [← block]
  cases frame
  rfl

end Frame

end ScriptEngine
