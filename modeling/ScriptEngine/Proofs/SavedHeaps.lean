import ScriptEngine.Proofs.Objects
import ScriptEngine.Proofs.SavedStacks
/-! What is read of saved heaps: the slots that were saved, with their generations, in the order they
are reused, and in each object what the document says of its members. -/

namespace ScriptEngine

namespace Object

def fits (object : Object) : Bool := object.fields.all Variable.fits

def reread (object : Object) : Option Object :=
  (object.fields.mapM Variable.reread).map fun fields => { object with fields }

end Object

namespace Slot

def fits (slot : Slot) : Bool := slot.generation < UInt32.size && slot.object.all Object.fits

def reread (slot : Slot) : Option Slot :=
  (slot.object.mapM Object.reread).map fun object => { slot with object }

end Slot

namespace Heap

def fits (heap : Heap) : Bool :=
  heap.slots.all Slot.fits && heap.vacant.all fun index => index < UInt32.size

def reread (heap : Heap) : Option Heap :=
  (heap.slots.mapM Slot.reread).map fun slots => { heap with slots }

end Heap

namespace Snapshot

open Json

theorem reads_object {object : Object} (fits : object.fits = true) :
    Reads decodeObject (encodeObject object) object.reread := by
  simp only [Object.fits, List.all_eq_true] at fits
  have className := reads_text object.className
  have fields := reads_variables fits
  refine reads_record (fun _ => rfl) (fun _ _ => rfl) ["class", "fields"] rfl (by decide)
    (by simp [className.spelled, fields.spelled]) fun levels => ?_
  rw [required_found rfl className levels, required_found rfl fields levels]
  simp [itemsDepth, Object.reread, ← bind_some_eq_map]

theorem reads_slot {slot : Slot} (fits : slot.fits = true) :
    Reads decodeSlot (encodeSlot slot) slot.reread := by
  simp only [Slot.fits, Bool.and_eq_true, decide_eq_true_eq, Option.all_eq_true] at fits
  have generation := reads_word fits.1
  have object : ∀ object ∈ slot.object,
      Reads decodeObject (encodeObject object) object.reread :=
    fun object among => reads_object (fits.2 object among)
  refine reads_record (fun _ => rfl) (fun _ _ => rfl) ["generation", "value"] rfl (by decide) ?_
    fun levels => ?_
  · simp [generation.spelled, isSpelled_orNull fun value among => (object value among).spelled]
  · rw [required_found rfl generation levels,
      nullable_orNull rfl (fun _ => Json.noConfusion) object levels]
    simp [itemsDepth, Slot.reread, ← bind_some_eq_map]

theorem reads_heap {heap : Heap} (fits : heap.fits = true) :
    Reads decodeHeap (encodeHeap heap) heap.reread := by
  simp only [Heap.fits, Bool.and_eq_true, List.all_eq_true, decide_eq_true_eq] at fits
  have slots : Reads (items decodeSlot) (.array (heap.slots.map encodeSlot))
      (heap.slots.mapM Slot.reread) := .items fun slot among => reads_slot (fits.1 slot among)
  have vacant : Reads (items fun _ => word?) (.array (heap.vacant.map .ofNat))
      (heap.vacant.mapM some) := .items fun index among => reads_word (fits.2 index among)
  refine reads_record (fun _ => rfl) (fun _ _ => rfl) ["slots", "free_list"] rfl (by decide)
    (by simp [slots.spelled, vacant.spelled]) fun levels => ?_
  rw [required_found rfl slots levels, required_found rfl vacant levels,
    mapM_eq_some_iff.mpr fun _ _ => rfl]
  simp [itemsDepth, Heap.reread, ← bind_some_eq_map]

end Snapshot

/-- The members of every object are read back as they are, and the document is not too deep. -/
structure Heap.ReadsBack (heap : Heap) : Prop where
  members : heap.All fun object => ∀ field ∈ object.fields,
    field.fits = true ∧ field.reread = some field
  shallow : (Snapshot.encodeHeap heap).depth ≤ Snapshot.maxLevels

namespace Heap.ReadsBack

variable {heap : Heap}

theorem object (readsBack : heap.ReadsBack) {slot : Slot} (among : slot ∈ heap.slots)
    {object : Object} (held : slot.object = some object) :
    object.fits = true ∧ object.reread = some object := by
  obtain ⟨index, found⟩ := List.mem_iff_getElem?.mp among
  have fields := readsBack.members index slot object found held
  constructor
  · rw [Object.fits, List.all_eq_true]
    exact fun field among => (fields field among).1
  · rw [Object.reread, mapM_eq_some_iff.mpr fun field among => (fields field among).2]
    rfl

theorem slot (readsBack : heap.ReadsBack) {slot : Slot} (among : slot ∈ heap.slots)
    (counts : slot.generation < UInt32.size) :
    slot.fits = true ∧ slot.reread = some slot := by
  have object : ∀ object, slot.object = some object →
      object.fits = true ∧ object.reread = some object :=
    fun object held => readsBack.object among held
  obtain ⟨generation, object?⟩ := slot
  cases object? with
  | none => exact ⟨by simpa [Slot.fits] using counts, rfl⟩
  | some held =>
      obtain ⟨fits, same⟩ := object held rfl
      constructor
      · simpa [Slot.fits, fits] using counts
      · simp [Slot.reread, same]

theorem loaded (readsBack : heap.ReadsBack)
    (counts : ∀ slot ∈ heap.slots, slot.generation < UInt32.size)
    (listed : ∀ index ∈ heap.vacant, index < UInt32.size) :
    Snapshot.loadHeap? (Snapshot.saveHeap heap) = some heap := by
  have slots := fun slot among => readsBack.slot among (counts slot among)
  have fits : heap.fits = true := by
    simp only [Heap.fits, Bool.and_eq_true, List.all_eq_true, decide_eq_true_eq]
    exact ⟨fun slot among => (slots slot among).1, listed⟩
  have same : heap.reread = some heap := by
    rw [Heap.reread, mapM_eq_some_iff.mpr fun slot among => (slots slot among).2]
    rfl
  rw [Snapshot.loadHeap?, Snapshot.saveHeap, (Snapshot.reads_heap fits).load, same]
  exact if_pos readsBack.shallow

end Heap.ReadsBack

end ScriptEngine
