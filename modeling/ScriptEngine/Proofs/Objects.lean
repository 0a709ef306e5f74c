import ScriptEngine.Heap
import ScriptEngine.Proofs.Ancestry
import Mathlib.Data.List.Nodup
/-! Handles and what they mean. A handle that was given out means an object of its class, or derived
from it, until the object is freed, and nothing from then on, as long as no generation of a slot
comes again. -/

namespace ScriptEngine

def Slot.Leads (slot after : Slot) : Prop :=
  slot.generation < after.generation ∨
    slot.generation = after.generation ∧ ∀ object, slot.object = some object →
      ∃ changed, after.object = some changed ∧ changed.className = object.className

namespace Slot.Leads

theorem refl (slot : Slot) : slot.Leads slot :=
  Or.inr ⟨rfl, fun object held => ⟨object, held, rfl⟩⟩

theorem trans {first second third : Slot} (before : first.Leads second)
    (behind : second.Leads third) : first.Leads third := by
  rcases before with older | ⟨same, kept⟩
  · rcases behind with further | ⟨same, _⟩
    · exact Or.inl (Nat.lt_trans older further)
    · exact Or.inl (same ▸ older)
  · rcases behind with further | ⟨also, later⟩
    · exact Or.inl (same ▸ further)
    · refine Or.inr ⟨same.trans also, fun object held => ?_⟩
      obtain ⟨changed, held, name⟩ := kept object held
      obtain ⟨last, held, named⟩ := later changed held
      exact ⟨last, held, named.trans name⟩

end Slot.Leads

theorem Handle.eq_of_parts {handle other : Handle} (index : handle.index = other.index)
    (generation : handle.generation = other.generation) : handle = other := by
  cases handle
  cases index
  cases generation
  rfl

namespace Heap

structure Reusable (heap : Heap) : Prop where
  distinct : heap.vacant.Nodup
  empty : ∀ index ∈ heap.vacant, ∃ slot, heap.slots[index]? = some slot ∧ slot.object = none

def Leads (heap later : Heap) : Prop :=
  ∀ (index : Nat) (slot : Slot), heap.slots[index]? = some slot →
    ∃ after, later.slots[index]? = some after ∧ slot.Leads after

def All (holds : Object → Prop) (heap : Heap) : Prop :=
  ∀ (index : Nat) (slot : Slot) (object : Object), heap.slots[index]? = some slot →
    slot.object = some object → holds object

theorem Leads.refl (heap : Heap) : heap.Leads heap := fun _ slot held => ⟨slot, held, .refl slot⟩

theorem Leads.trans {first second third : Heap} (before : first.Leads second)
    (behind : second.Leads third) : first.Leads third := by
  intro index slot held
  obtain ⟨middle, held, leads⟩ := before index slot held
  obtain ⟨after, held, further⟩ := behind index middle held
  exact ⟨after, held, leads.trans further⟩

theorem All.imp {holds also : Object → Prop} {heap : Heap} (all : heap.All holds)
    (implies : ∀ object, holds object → also object) : heap.All also :=
  fun index slot object held found => implies object (all index slot object held found)

theorem All.of_get? {holds : Object → Prop} {heap : Heap}
    (live : ∀ handle object, heap.get? handle = some object → holds object) : heap.All holds := by
  intro index slot object found held
  refine live ⟨index, slot.generation⟩ object (get?_eq_some_iff.mpr ?_)
  rw [found, ← held]

theorem All.get? {holds : Object → Prop} {heap : Heap} (all : heap.All holds) {handle : Handle}
    {object : Object} (live : heap.get? handle = some object) : holds object :=
  all _ _ object (get?_eq_some_iff.mp live) rfl

section

variable {heap : Heap} {index : Nat} {slot replaced : Slot} {vacant : List Nat}

theorem leads_set (held : heap.slots[index]? = some slot) (leads : slot.Leads replaced) :
    heap.Leads ⟨heap.slots.set index replaced, vacant⟩ := by
  intro other kept found
  by_cases same : index = other
  · subst same
    rw [held] at found
    cases found
    exact ⟨replaced, List.getElem?_set_self (List.getElem?_eq_some_iff.mp held).1, leads⟩
  · exact ⟨kept, (List.getElem?_set_ne same).trans found, .refl kept⟩

theorem all_set {holds : Object → Prop} (all : heap.All holds)
    (also : ∀ object, replaced.object = some object → holds object) :
    All holds ⟨heap.slots.set index replaced, vacant⟩ := by
  intro other kept object found held
  by_cases same : index = other
  · subst same
    obtain ⟨bound, _⟩ := List.getElem?_eq_some_iff.mp found
    rw [List.length_set] at bound
    rw [List.getElem?_set_self bound] at found
    cases found
    exact also object held
  · rw [List.getElem?_set_ne same] at found
    exact all other kept object found held

theorem empty_set (reusable : heap.Reusable) (different : index ∉ vacant)
    (among : ∀ other ∈ vacant, other ∈ heap.vacant) : ∀ other ∈ vacant,
      ∃ slot, (heap.slots.set index replaced)[other]? = some slot ∧ slot.object = none := by
  intro other listed
  obtain ⟨slot, held, empty⟩ := reusable.empty other (among other listed)
  have apart : index ≠ other := by
    rintro rfl
    exact different listed
  exact ⟨slot, (List.getElem?_set_ne apart).trans held, empty⟩

end

section

variable {heap : Heap} {handle : Handle} {object : Object}

theorem not_vacant_of_live (reusable : heap.Reusable) (live : heap.get? handle = some object) :
    handle.index ∉ heap.vacant := by
  intro vacant
  obtain ⟨slot, held, empty⟩ := reusable.empty _ vacant
  rw [get?_eq_some_iff.mp live] at held
  cases held
  cases empty

theorem update_of_live (live : heap.get? handle = some object) (change : Object → Object) :
    heap.update handle change =
      ⟨heap.slots.set handle.index ⟨handle.generation, some (change object)⟩, heap.vacant⟩ := by
  simp only [update, live]

theorem update_leads {change : Object → Object}
    (keeps : ∀ object, (change object).className = object.className) :
    heap.Leads (heap.update handle change) := by
  cases live : heap.get? handle with
  | none =>
      simp only [update, live]
      exact .refl heap
  | some object =>
      rw [update_of_live live]
      refine leads_set (get?_eq_some_iff.mp live) (Or.inr ⟨rfl, fun other held => ?_⟩)
      cases held
      exact ⟨_, rfl, keeps object⟩

theorem update_reusable {change : Object → Object} (reusable : heap.Reusable) :
    (heap.update handle change).Reusable := by
  cases live : heap.get? handle with
  | none =>
      simp only [update, live]
      exact reusable
  | some object =>
      have apart := not_vacant_of_live reusable live
      rw [update_of_live live]
      exact ⟨reusable.distinct, empty_set reusable apart fun _ among => among⟩

theorem update_all {holds : Object → Prop} {change : Object → Object} (all : heap.All holds)
    (keeps : ∀ object, heap.get? handle = some object → holds (change object)) :
    (heap.update handle change).All holds := by
  cases live : heap.get? handle with
  | none =>
      simp only [update, live]
      exact all
  | some object =>
      rw [update_of_live live]
      refine all_set all fun other held => ?_
      cases held
      exact keeps object live

theorem get?_set {slots : List Slot} {left : List Nat} (vacant : List Nat) {index : Nat}
    {slot : Slot} (bound : index < slots.length) : get? ⟨slots.set index slot, left⟩ other =
      if index = other.index then
        if slot.generation = other.generation then slot.object else none
      else get? ⟨slots, vacant⟩ other := by
  split
  · rename_i same
    subst same
    simp only [get?, List.getElem?_set_self bound]
  · rename_i apart
    simp only [get?, List.getElem?_set_ne apart]

theorem get?_of_live {object : Object} (live : heap.get? handle = some object)
    (same : handle.index = other.index) : heap.get? other =
      if handle.generation = other.generation then some object else none := by
  rw [get?_eq_some_iff, same] at live
  simp only [get?, live]

theorem get?_update (change : Object → Object) : (heap.update handle change).get? other =
    if handle = other then (heap.get? other).map change else heap.get? other := by
  cases live : heap.get? handle with
  | none =>
      simp only [update, live]
      split
      · rename_i same
        rw [← same, live]
        rfl
      · rfl
  | some object =>
      have bound := (List.getElem?_eq_some_iff.mp (get?_eq_some_iff.mp live)).1
      rw [update_of_live live, get?_set heap.vacant bound]
      by_cases index : handle.index = other.index
      · rw [if_pos index, get?_of_live live index]
        by_cases generation : handle.generation = other.generation
        · have same := Handle.eq_of_parts index generation
          simp [same]
        · have apart : handle ≠ other := fun same => generation (congrArg _ same)
          simp [generation, apart]
      · have apart : handle ≠ other := fun same => index (congrArg _ same)
        simp [index, apart]

theorem get?_free : (heap.free handle).2.get? other =
    if handle = other then none else heap.get? other := by
  cases live : heap.get? handle with
  | none =>
      simp only [free, live]
      split
      · rename_i same
        rw [← same, live]
      · rfl
  | some object =>
      have bound := (List.getElem?_eq_some_iff.mp (get?_eq_some_iff.mp live)).1
      simp only [free, live]
      rw [get?_set heap.vacant bound, ite_self]
      by_cases index : handle.index = other.index
      · rw [if_pos index, get?_of_live live index]
        by_cases generation : handle.generation = other.generation
        · have same := Handle.eq_of_parts index generation
          simp [same]
        · simp [generation]
      · have apart : handle ≠ other := fun same => index (congrArg _ same)
        simp [index, apart]

theorem allocate_cases (reusable : heap.Reusable) (made : Object) :
    (∃ index slot, heap.vacant = heap.vacant.dropLast ++ [index] ∧
        heap.slots[index]? = some slot ∧ slot.object = none ∧
        index ∉ heap.vacant.dropLast ∧ heap.allocate made = (⟨index, slot.generation⟩,
          ⟨heap.slots.set index { slot with object := some made }, heap.vacant.dropLast⟩)) ∨
      heap.vacant = [] ∧ heap.allocate made =
        (⟨heap.slots.length, 0⟩, { heap with slots := heap.slots ++ [⟨0, some made⟩] }) := by
  unfold allocate
  cases last : heap.vacant.getLast? with
  | none =>
      rw [List.getLast?_eq_none_iff] at last
      exact Or.inr ⟨last, rfl⟩
  | some index =>
      obtain ⟨before, listed⟩ := List.getLast?_eq_some_iff.mp last
      have among : index ∈ heap.vacant := by simp [listed]
      obtain ⟨slot, held, empty⟩ := reusable.empty index among
      have once : index ∉ heap.vacant.dropLast := by
        have distinct := reusable.distinct
        rw [listed, List.nodup_append] at distinct
        rw [listed, List.dropLast_concat]
        exact fun earlier => distinct.2.2 index earlier index (List.mem_singleton_self _) rfl
      have split : heap.vacant = heap.vacant.dropLast ++ [index] := by
        rw [listed, List.dropLast_concat]
      exact Or.inl ⟨index, slot, split, held, empty, once, by simp [held]⟩

theorem allocate_leads (reusable : heap.Reusable) (made : Object) :
    heap.Leads (heap.allocate made).2 := by
  rcases allocate_cases reusable made with ⟨index, slot, _, held, empty, _, same⟩ | ⟨_, same⟩
  · rw [same]
    refine leads_set held (Or.inr ⟨rfl, fun other found => ?_⟩)
    rw [empty] at found
    cases found
  · rw [same]
    intro index slot held
    have bound := (List.getElem?_eq_some_iff.mp held).1
    exact ⟨slot, (List.getElem?_append_left bound).trans held, .refl slot⟩

theorem allocate_reusable (reusable : heap.Reusable) (made : Object) :
    (heap.allocate made).2.Reusable := by
  rcases allocate_cases reusable made with ⟨index, slot, _, _, _, once, same⟩ | ⟨exhausted, same⟩
  · rw [same]
    exact ⟨reusable.distinct.sublist (List.dropLast_sublist _), empty_set reusable once
      fun other among => List.dropLast_subset _ among⟩
  · rw [same]
    refine ⟨reusable.distinct, fun index among => ?_⟩
    rw [exhausted] at among
    cases among

theorem allocate_all {holds : Object → Prop} (all : heap.All holds) {made : Object}
    (also : holds made) : (heap.allocate made).2.All holds := by
  unfold allocate
  dsimp only
  split
  · refine all_set all fun other held => ?_
    cases held
    exact also
  · intro index slot object found held
    by_cases bound : index < heap.slots.length
    · exact all index slot object ((List.getElem?_append_left bound).symm.trans found) held
    · rw [List.getElem?_append_right (Nat.le_of_not_lt bound), List.getElem?_singleton] at found
      split at found
      · cases found
        cases held
        exact also
      · cases found

theorem get?_allocate (reusable : heap.Reusable) (made : Object) :
    (heap.allocate made).2.get? (heap.allocate made).1 = some made := by
  rcases allocate_cases reusable made with ⟨index, slot, _, held, _, _, same⟩ | ⟨_, same⟩
  · rw [same, get?_eq_some_iff]
    exact List.getElem?_set_self (List.getElem?_eq_some_iff.mp held).1
  · rw [same, get?_eq_some_iff]
    simp

theorem free_reusable (reusable : heap.Reusable) : (heap.free handle).2.Reusable := by
  unfold free
  split
  · rename_i object live
    have apart := not_vacant_of_live reusable live
    have bound := (List.getElem?_eq_some_iff.mp (get?_eq_some_iff.mp live)).1
    refine ⟨?_, fun index among => ?_⟩
    · refine List.nodup_append.mpr ⟨reusable.distinct, List.nodup_singleton _, ?_⟩
      intro index among other new same
      rw [List.mem_singleton] at new
      exact apart (new ▸ same ▸ among)
    · rcases List.mem_append.mp among with old | new
      · obtain ⟨slot, held, empty⟩ := reusable.empty index old
        have different : handle.index ≠ index := fun same => apart (same ▸ old)
        exact ⟨slot, (List.getElem?_set_ne different).trans held, empty⟩
      · rw [List.mem_singleton.mp new]
        exact ⟨_, List.getElem?_set_self bound, rfl⟩
  · exact reusable

end

end Heap

theorem ClassTable.value_of_members? {classes : ClassTable} {className : String}
    {fields : Variables} (members : classes.members? className = some fields) :
    ∀ field ∈ fields, field.value = .default field.type := by
  intro field among
  unfold members? at members
  split at members
  · cases members
    obtain ⟨decl, _, declared⟩ := List.mem_flatMap.mp among
    obtain ⟨member, _, rfl⟩ := List.mem_map.mp declared
    rfl
  · cases members

/-- An object has the members of its class. -/
def Object.IsBuilt (classes : ClassTable) (object : Object) : Prop :=
  ∃ fields, classes.members? object.className = some fields ∧
    object.fields.map (fun field => (field.name, field.type)) =
      fields.map fun field => (field.name, field.type)

namespace Object.IsBuilt

variable {classes newer : ClassTable} {object : Object}

theorem made {className : String} {fields : Variables}
    (members : classes.members? className = some fields) : IsBuilt classes ⟨className, fields⟩ :=
  ⟨fields, members, rfl⟩

theorem contains (built : object.IsBuilt classes) :
    classes.contains object.className = true := by
  obtain ⟨fields, members, _⟩ := built
  unfold ClassTable.members? at members
  split at members
  · assumption
  · cases members

theorem later (built : object.IsBuilt classes) (grows : classes.Grows newer) :
    object.IsBuilt newer := by
  obtain ⟨fields, members, same⟩ := built
  exact ⟨fields, grows.members? members, same⟩

theorem set (built : object.IsBuilt classes) (name : String) (value : Value) :
    (object.updateField name fun field => field.set value).IsBuilt classes := by
  obtain ⟨fields, members, same⟩ := built
  have kept : ∀ held : Variables, (held.updateFirst (fun field => field.name = name)
      fun field => field.set value).map (fun field => (field.name, field.type)) =
        held.map fun field => (field.name, field.type) := by
    intro held
    induction held with
    | nil => rfl
    | cons field rest ih =>
        rw [Variables.updateFirst]
        split
        · rfl
        · rw [List.map_cons, List.map_cons, ih]
  exact ⟨fields, members, (kept object.fields).trans same⟩

theorem field? (built : object.IsBuilt classes) (founded : ClassTable.Founded classes.classes)
    {owner : String} {fields : Variables} {field : Variable}
    (derives : classes.derives object.className owner = true)
    (members : classes.members? owner = some fields) (among : field ∈ fields) :
    ∃ held all other, object.field? field.name = some held ∧ held ∈ object.fields ∧
      classes.members? object.className = some all ∧ field ∈ all ∧ other ∈ all ∧
        field.name = other.name ∧ other.type = held.type := by
  obtain ⟨all, templates, same⟩ := built
  have inherited := ClassTable.members_derived founded derives members templates field among
  have listed : (field.name, field.type) ∈ object.fields.map fun field => (field.name, field.type) := by
    rw [same]
    exact List.mem_map_of_mem inherited
  obtain ⟨some?, held, named⟩ := List.mem_map.mp listed
  have found : (object.field? field.name).isSome = true :=
    List.find?_isSome.mpr ⟨some?, held, by simpa using congrArg Prod.fst named⟩
  obtain ⟨held, found⟩ := Option.isSome_iff_exists.mp found
  have first := List.find?_some found
  have there := List.mem_of_find?_eq_some found
  have template : (held.name, held.type) ∈ all.map fun field => (field.name, field.type) := by
    rw [← same]
    exact List.mem_map_of_mem there
  obtain ⟨other, declared, alike⟩ := List.mem_map.mp template
  simp only [Prod.mk.injEq] at alike
  have name : held.name = field.name := by simpa using first
  exact ⟨held, all, other, found, there, templates, inherited, declared,
    (alike.1.trans name).symm, alike.2⟩

end Object.IsBuilt

structure Realm where
  classes : ClassTable
  heap : Heap

namespace Realm

structure Leads (realm later : Realm) : Prop where
  classes : realm.classes.Grows later.classes
  heap : realm.heap.Leads later.heap

def Refers (realm : Realm) (handle : Handle) (className : String) : Prop :=
  ∃ slot, realm.heap.slots[handle.index]? = some slot ∧
    (handle.generation < slot.generation ∨ handle.generation = slot.generation ∧
      ∃ object, slot.object = some object ∧
        realm.classes.derives object.className className = true)

theorem Leads.refl (realm : Realm) : realm.Leads realm := ⟨.refl _, .refl _⟩

theorem Leads.trans {first second third : Realm} (before : first.Leads second)
    (behind : second.Leads third) : first.Leads third :=
  ⟨before.classes.trans behind.classes, before.heap.trans behind.heap⟩

namespace Refers

variable {realm after : Realm} {handle : Handle} {object : Object} {className : String}

theorem later (refers : realm.Refers handle className) (leads : realm.Leads after) :
    after.Refers handle className := by
  obtain ⟨slot, held, meaning⟩ := refers
  obtain ⟨changed, found, slots⟩ := leads.heap handle.index slot held
  refine ⟨changed, found, ?_⟩
  rcases meaning with freed | ⟨same, object, live, derives⟩
  · rcases slots with further | ⟨kept, _⟩
    · exact Or.inl (Nat.lt_trans freed further)
    · exact Or.inl (kept ▸ freed)
  · rcases slots with further | ⟨kept, objects⟩
    · exact Or.inl (same ▸ further)
    · obtain ⟨other, live, name⟩ := objects object live
      exact Or.inr ⟨same.trans kept, other, live, name ▸ leads.classes.derives derives⟩

theorem of_live (live : realm.heap.get? handle = some object)
    (derives : realm.classes.derives object.className className = true) :
    realm.Refers handle className :=
  ⟨_, Heap.get?_eq_some_iff.mp live, Or.inr ⟨rfl, object, rfl, derives⟩⟩

theorem derives (refers : realm.Refers handle className)
    (live : realm.heap.get? handle = some object) :
    realm.classes.derives object.className className = true := by
  obtain ⟨slot, held, meaning⟩ := refers
  rw [Heap.get?_eq_some_iff.mp live] at held
  cases held
  rcases meaning with freed | ⟨_, other, same, derives⟩
  · exact absurd freed (Nat.lt_irrefl _)
  · cases same
    exact derives

theorem base (refers : realm.Refers handle className)
    (founded : ClassTable.Founded realm.classes.classes) {base : String}
    (derives : realm.classes.derives className base = true) : realm.Refers handle base := by
  obtain ⟨slot, held, meaning⟩ := refers
  refine ⟨slot, held, meaning.imp_right ?_⟩
  rintro ⟨same, object, live, further⟩
  exact ⟨same, object, live, ClassTable.derives_trans founded further derives⟩

end Refers

end Realm

end ScriptEngine
