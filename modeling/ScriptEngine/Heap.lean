import ScriptEngine.Variable
/-! The objects of an engine. An object lives in a numbered slot; a slot whose object was freed is
used again under the next generation, so a handle to the freed object finds nothing. -/

namespace ScriptEngine

/-- An object: its class and its members, inherited ones first. -/
structure Object where
  className : String
  fields : Variables
deriving Inhabited

namespace Object

def field? (object : Object) (name : String) : Option Variable :=
  List.find? (fun field => field.name = name) object.fields

def updateField (object : Object) (name : String) (change : Variable → Variable) : Object :=
  { object with fields := object.fields.updateFirst (fun field => field.name = name) change }

end Object

/-- A slot has its generation also while it is vacant. -/
structure Slot where
  generation : Nat
  object : Option Object

/-- Vacant slots are reused from the one vacated last, which is the last of `vacant`. -/
structure Heap where
  slots : List Slot := []
  vacant : List Nat := []
deriving Inhabited

namespace Heap

def get? (heap : Heap) (handle : Handle) : Option Object :=
  match heap.slots[handle.index]? with
  | some slot => if slot.generation = handle.generation then slot.object else none
  | none => none

/-- Place an object in the slot vacated last, or in a new one. -/
def allocate (heap : Heap) (object : Object) : Handle × Heap :=
  let reused := heap.vacant.getLast?.bind fun index =>
    (heap.slots[index]?).map fun slot => (index, slot)
  match reused with
  | some (index, slot) =>
      (⟨index, slot.generation⟩,
        { slots := heap.slots.set index { slot with object := some object }
          vacant := heap.vacant.dropLast })
  | none =>
      (⟨heap.slots.length, 0⟩, { heap with slots := heap.slots ++ [⟨0, some object⟩] })

def update (heap : Heap) (handle : Handle) (change : Object → Object) : Heap :=
  match heap.get? handle with
  | some object =>
      { heap with slots := heap.slots.set handle.index ⟨handle.generation, some (change object)⟩ }
  | none => heap

/-- Vacate the slot of a handle, and whether there was an object in it. Generations count modulo
`2 ^ 32`. -/
def free (heap : Heap) (handle : Handle) : Bool × Heap :=
  match heap.get? handle with
  | some _ =>
      (true,
        { slots := heap.slots.set handle.index ⟨(handle.generation + 1) % UInt32.size, none⟩
          vacant := heap.vacant ++ [handle.index] })
  | none => (false, heap)

theorem get?_eq_some_iff {heap : Heap} {handle : Handle} {object : Object} :
    heap.get? handle = some object ↔
      heap.slots[handle.index]? = some ⟨handle.generation, some object⟩ := by
  unfold get?
  constructor
  · intro found
    split at found
    · rename_i slot held
      split at found
      · rename_i current
        rw [held, ← current, ← found]
      · cases found
    · cases found
  · intro held
    simp [held]

theorem get?_update_of_live {heap : Heap} {handle changed : Handle} {change : Object → Object}
    {object : Object} (live : heap.get? handle = some object) :
    ∃ after, (heap.update changed change).get? handle = some after := by
  unfold update
  split
  · rename_i found
    simp only [get?_eq_some_iff] at live found ⊢
    by_cases same : changed.index = handle.index
    · rw [same, live] at found
      simp only [Option.some.injEq, Slot.mk.injEq] at found
      have bound : handle.index < heap.slots.length := (List.getElem?_eq_some_iff.mp live).1
      exact ⟨_, by rw [same, List.getElem?_set_self bound, found.1]⟩
    · exact ⟨object, by rw [List.getElem?_set_ne same]; exact live⟩
  · exact ⟨object, live⟩

theorem get?_allocate_of_live {heap : Heap} {handle : Handle} {made object : Object}
    (live : heap.get? handle = some object) :
    ∃ after, (heap.allocate made).2.get? handle = some after := by
  simp only [allocate]
  split
  · rename_i index slot reused
    have held : heap.slots[index]? = some slot := by
      cases last : heap.vacant.getLast? with
      | none => simp [last] at reused
      | some vacated =>
          simp only [last, Option.bind_some, Option.map_eq_some_iff, Prod.mk.injEq] at reused
          obtain ⟨kept, found, rfl, rfl⟩ := reused
          exact found
    simp only [get?_eq_some_iff] at live ⊢
    by_cases same : index = handle.index
    · rw [same, live] at held
      have bound : handle.index < heap.slots.length := (List.getElem?_eq_some_iff.mp live).1
      cases held
      exact ⟨_, by rw [same, List.getElem?_set_self bound]⟩
    · exact ⟨object, by rw [List.getElem?_set_ne same]; exact live⟩
  · have bound : handle.index < heap.slots.length :=
      (List.getElem?_eq_some_iff.mp (get?_eq_some_iff.mp live)).1
    refine ⟨object, get?_eq_some_iff.mpr ?_⟩
    rw [List.getElem?_append_left bound]
    exact get?_eq_some_iff.mp live

def size (heap : Heap) : Nat := heap.slots.length - heap.vacant.length

def isEmpty (heap : Heap) : Bool := heap.size == 0

def summary (heap : Heap) : String :=
  s!"ObjectHeap \x7b slot_count: {heap.slots.length}, free_count: {heap.vacant.length} \x7d"

end Heap

end ScriptEngine
