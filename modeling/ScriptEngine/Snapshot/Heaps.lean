import ScriptEngine.Heap
import ScriptEngine.Snapshot.Variables
/-! Saved heaps, vacant slots with their generations among them. -/

namespace ScriptEngine.Snapshot

def encodeObject (object : Object) : Json :=
  .ofMembers [("class", .ofText object.className), ("fields", encodeVariables object.fields)]

def decodeObject : Decoder Object
  | 0, _ => none
  | levels + 1, json => do
      let record ← record? ["class", "fields"] json
      let className ← record.required "class" Json.text?
      let fields ← record.required "fields" (decodeVariables levels)
      return ⟨className, fields⟩

def encodeSlot (slot : Slot) : Json :=
  .ofMembers [("generation", .ofNat slot.generation), ("value", .orNull encodeObject slot.object)]

def decodeSlot : Decoder Slot
  | 0, _ => none
  | levels + 1, json => do
      let record ← record? ["generation", "value"] json
      let generation ← record.required "generation" word?
      let object ← record.nullable "value" (decodeObject levels)
      return ⟨generation, object⟩

def encodeHeap (heap : Heap) : Json :=
  .ofMembers
    [("slots", .array (heap.slots.map encodeSlot)), ("free_list", .array (heap.vacant.map .ofNat))]

def decodeHeap : Decoder Heap
  | 0, _ => none
  | levels + 1, json => do
      let record ← record? ["slots", "free_list"] json
      let slots ← record.required "slots" (items decodeSlot levels)
      let vacant ← record.required "free_list" (items (fun _ => word?) levels)
      return { slots, vacant }

end ScriptEngine.Snapshot
