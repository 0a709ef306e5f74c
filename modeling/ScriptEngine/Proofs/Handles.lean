import ScriptEngine.Proofs.SavedHeaps
import Mathlib.Data.List.Perm.Basic
/-! No handle is given out twice. What a heap holds is told by what was done to it: the objects made,
the changes made through their handles, and the handles freed. -/

namespace ScriptEngine

/-- What is done to a heap; an object is made with the handle it is given. -/
inductive HeapEvent where
  | made (handle : Handle) (object : Object)
  | changed (handle : Handle) (change : Object → Object)
  | freed (handle : Handle)

abbrev HeapHistory := List HeapEvent

namespace HeapHistory

def issued : HeapHistory → List Handle
  | [] => []
  | .made handle _ :: earlier => handle :: issued earlier
  | .changed .. :: earlier | .freed _ :: earlier => issued earlier

/-- The object that was made for a handle, as it was last changed through it, until it is freed. -/
def object? (handle : Handle) : HeapHistory → Option Object
  | [] => none
  | .made other object :: earlier =>
      if other = handle then some object else object? handle earlier
  | .changed other change :: earlier =>
      if other = handle then (object? handle earlier).map change else object? handle earlier
  | .freed other :: earlier => if other = handle then none else object? handle earlier

def live (history : HeapHistory) : List Handle :=
  history.issued.filter fun handle => (history.object? handle).isSome

def vacated (index : Nat) : HeapHistory → Nat
  | [] => 0
  | .freed handle :: earlier =>
      vacated index earlier +
        if handle.index = index ∧ (object? handle earlier).isSome then 1 else 0
  | .made .. :: earlier | .changed .. :: earlier => vacated index earlier

def Holds (history : HeapHistory) (handle : Handle) : Prop :=
  ∃ later object earlier,
    history = later ++ .made handle object :: earlier ∧ .freed handle ∉ later

section

variable {history : HeapHistory} {event : HeapEvent} {handle : Handle}

theorem holds_cons_iff : Holds (event :: history) handle ↔
    (∃ object, event = .made handle object) ∨ event ≠ .freed handle ∧ history.Holds handle := by
  constructor
  · rintro ⟨later, object, earlier, same, kept⟩
    cases later with
    | nil =>
        cases same
        exact Or.inl ⟨object, rfl⟩
    | cons first later =>
        cases same
        rw [List.mem_cons, not_or] at kept
        exact Or.inr ⟨fun freed => kept.1 freed.symm, later, object, earlier, rfl, kept.2⟩
  · rintro (⟨object, rfl⟩ | ⟨other, later, object, earlier, rfl, kept⟩)
    · exact ⟨[], object, history, rfl, List.not_mem_nil⟩
    · refine ⟨event :: later, object, earlier, rfl, ?_⟩
      rw [List.mem_cons, not_or]
      exact ⟨fun freed => other freed.symm, kept⟩

theorem isSome_object?_iff : (history.object? handle).isSome = true ↔ history.Holds handle := by
  induction history with
  | nil => simp [object?, Holds]
  | cons event earlier ih =>
      rw [holds_cons_iff, ← ih]
      cases event with
      | made other object =>
          by_cases same : other = handle <;> simp [object?, same]
      | changed other change =>
          by_cases same : other = handle <;> simp [object?, same]
      | freed other =>
          by_cases same : other = handle <;> simp [object?, same]

theorem Holds.issued (holds : history.Holds handle) : handle ∈ history.issued := by
  induction history with
  | nil =>
      obtain ⟨later, object, earlier, same, _⟩ := holds
      simp at same
  | cons event earlier ih =>
      rcases holds_cons_iff.mp holds with ⟨object, rfl⟩ | ⟨_, before⟩
      · exact List.mem_cons_self ..
      · cases event with
        | made other object => exact List.mem_cons_of_mem _ (ih before)
        | changed | freed => exact ih before

theorem mem_live_iff : handle ∈ history.live ↔ (history.object? handle).isSome = true := by
  rw [live, List.mem_filter]
  exact ⟨And.right, fun held => ⟨(isSome_object?_iff.mp held).issued, held⟩⟩

theorem vacated_le_length (history : HeapHistory) (index : Nat) :
    history.vacated index ≤ history.length := by
  induction history with
  | nil => exact Nat.le_refl 0
  | cons event earlier ih =>
      cases event with
      | made | changed => exact Nat.le_succ_of_le ih
      | freed =>
          rw [vacated, List.length_cons]
          split
          all_goals omega

end

end HeapHistory

namespace Heap

section

variable {heap : Heap} {handle other : Handle}

structure Places (heap : Heap) (made : Object) (handle : Handle) (after : Heap) : Prop where
  before : heap.slots[handle.index]? = some ⟨handle.generation, none⟩ ∨
    handle.index = heap.slots.length ∧ handle.generation = 0
  slots : ∀ index, after.slots[index]? =
    if handle.index = index then some ⟨handle.generation, some made⟩ else heap.slots[index]?
  vacant : ∀ index, index ∈ after.vacant ↔ index ∈ heap.vacant ∧ handle.index ≠ index

theorem allocate_places (reusable : heap.Reusable) (made : Object) :
    heap.Places made (heap.allocate made).1 (heap.allocate made).2 := by
  rcases allocate_cases reusable made with
    ⟨index, slot, listed, held, empty, once, same⟩ | ⟨exhausted, same⟩
  · have bound := (List.getElem?_eq_some_iff.mp held).1
    rw [same]
    constructor
    · rw [← empty]
      exact Or.inl held
    · intro other
      by_cases index : index = other
      · simp [← index, List.getElem?_set_self bound]
      · simp [index, List.getElem?_set_ne index]
    · intro other
      dsimp only
      generalize heap.vacant.dropLast = before at listed once
      rw [listed, List.mem_append, List.mem_singleton]
      constructor
      · intro among
        exact ⟨Or.inl among, fun same => once (same ▸ among)⟩
      · rintro ⟨among | last, apart⟩
        · exact among
        · exact absurd last.symm apart
  · rw [same]
    constructor
    · exact Or.inr ⟨rfl, rfl⟩
    · intro other
      dsimp only
      rw [List.getElem?_append]
      grind
    · intro other
      simp [exhausted]

namespace Places

variable {made : Object} {after : Heap}

theorem unheld (places : heap.Places made handle after) (same : handle.index = other.index) :
    heap.get? other = none := by
  rcases places.before with empty | ⟨new, _⟩
  · rw [same] at empty
    simp [get?, empty]
  · have beyond : heap.slots[other.index]? = none :=
      List.getElem?_eq_none (by omega)
    simp [get?, beyond]

theorem get? (places : heap.Places made handle after) :
    after.get? other = if handle = other then some made else heap.get? other := by
  by_cases index : handle.index = other.index
  · by_cases generation : handle.generation = other.generation
    · have same := Handle.eq_of_parts index generation
      simp [Heap.get?, same, places.slots]
    · have apart : handle ≠ other := fun same => generation (congrArg _ same)
      rw [if_neg apart, places.unheld index]
      simp [Heap.get?, places.slots, index, generation]
  · have apart : handle ≠ other := fun same => index (congrArg _ same)
    rw [if_neg apart]
    simp only [Heap.get?, places.slots, if_neg index]

theorem bound (places : heap.Places made handle after) {index : Nat}
    (used : handle.index = index ∨ index < heap.slots.length) : index < after.slots.length := by
  have there : (after.slots[index]?).isSome = true := by
    rw [places.slots]
    split
    · rfl
    · rename_i apart
      simpa using used.resolve_left apart
  simpa using there

end Places

theorem slots_update (change : Object → Object) (index : Nat) :
    ((heap.update handle change).slots[index]?).map
        (fun slot => (slot.generation, slot.object.isSome)) =
      (heap.slots[index]?).map fun slot => (slot.generation, slot.object.isSome) := by
  cases live : heap.get? handle with
  | none => simp only [update, live]
  | some object =>
      rw [update_of_live live, List.getElem?_set]
      split
      · rename_i same
        have held := get?_eq_some_iff.mp live
        rw [← same, held, if_pos (List.getElem?_eq_some_iff.mp held).1]
        rfl
      · rfl

theorem vacant_update (change : Object → Object) :
    (heap.update handle change).vacant = heap.vacant := by
  unfold update
  split <;> rfl

end

/-- What a heap that started empty has to do with what was done to it. The generation of a slot is the
number of objects freed in it, so that each handle given out is a lower one or a live one. -/
structure Records (history : HeapHistory) (heap : Heap) : Prop where
  reusable : heap.Reusable
  emptied : ∀ index slot, heap.slots[index]? = some slot → slot.object = none →
    index ∈ heap.vacant
  counted : ∀ index,
    history.vacated index = ((heap.slots[index]?).map Slot.generation).getD 0
  found : ∀ handle, heap.get? handle = history.object? handle
  placed : ∀ handle ∈ history.issued, handle.index < heap.slots.length
  passed : ∀ handle ∈ history.issued,
    handle.generation < history.vacated handle.index ∨ (history.object? handle).isSome = true
  once : history.issued.Nodup

namespace Records

variable {history : HeapHistory} {heap after : Heap} {handle : Handle} {object made : Object}

theorem fresh : Records [] {} where
  reusable := ⟨List.nodup_nil, nofun⟩
  emptied := nofun
  counted _ := rfl
  found _ := rfl
  placed := nofun
  passed := nofun
  once := List.nodup_nil

theorem generation_of_live (records : Records history heap)
    (live : heap.get? handle = some object) :
    history.vacated handle.index = handle.generation := by
  rw [records.counted, get?_eq_some_iff.mp live]
  rfl

theorem not_issued (records : Records history heap)
    (places : heap.Places made handle after) : handle ∉ history.issued := by
  intro issued
  have bound := records.placed handle issued
  have reached : history.vacated handle.index = handle.generation := by
    rw [records.counted]
    rcases places.before with empty | ⟨new, _⟩
    · rw [empty]
      rfl
    · omega
  rcases records.passed handle issued with lower | live
  · omega
  · rw [← records.found, places.unheld rfl] at live
    cases live

theorem allocated (records : Records history heap) (reusable : after.Reusable)
    (places : heap.Places made handle after) :
    Records (.made handle made :: history) after := by
  refine ⟨reusable, ?_, ?_, ?_, ?_, ?_, ?_⟩
  · intro index slot held empty
    rw [places.slots] at held
    split at held
    · cases held
      cases empty
    · rename_i apart
      exact (places.vacant index).mpr ⟨records.emptied index slot held empty, apart⟩
  · intro index
    rw [HeapHistory.vacated, records.counted, places.slots]
    split
    · rename_i same
      subst same
      rcases places.before with empty | ⟨new, first⟩
      · rw [empty]
        rfl
      · rw [List.getElem?_eq_none (by omega)]
        exact first.symm
    · rfl
  · intro other
    rw [HeapHistory.object?, places.get?, records.found]
  · intro other issued
    rcases List.mem_cons.mp issued with rfl | earlier
    · exact places.bound (Or.inl rfl)
    · exact places.bound (Or.inr (records.placed other earlier))
  · intro other issued
    by_cases same : handle = other
    · exact Or.inr (by simp [HeapHistory.object?, same])
    · rw [HeapHistory.vacated, HeapHistory.object?, if_neg same]
      exact records.passed other
        ((List.mem_cons.mp issued).resolve_left fun again => same again.symm)
  · exact List.nodup_cons.mpr ⟨records.not_issued places, records.once⟩

theorem changed (records : Records history heap) (handle : Handle) (change : Object → Object) :
    Records (.changed handle change :: history) (heap.update handle change) := by
  have slots := fun index => @slots_update heap handle change index
  refine ⟨update_reusable records.reusable, ?_, ?_, ?_, ?_, ?_, records.once⟩
  · intro index slot held empty
    have same := slots index
    rw [held, Option.map_some, empty] at same
    obtain ⟨before, there, alike⟩ := Option.map_eq_some_iff.mp same.symm
    rw [vacant_update]
    refine records.emptied index before there ?_
    simpa using congrArg Prod.snd alike
  · intro index
    have same := congrArg (Option.map Prod.fst) (slots index)
    rw [Option.map_map, Option.map_map] at same
    rw [HeapHistory.vacated, records.counted]
    exact (congrArg (Option.getD · 0) same).symm
  · intro other
    rw [HeapHistory.object?, get?_update, records.found]
  · intro other issued
    have same := congrArg Option.isSome (slots other.index)
    simpa [records.placed other issued] using same
  · intro other issued
    rw [HeapHistory.vacated, HeapHistory.object?]
    refine (records.passed other issued).imp_right fun live => ?_
    split
    · rw [Option.isSome_map]
      exact live
    · exact live

theorem freed_of_gone (records : Records history heap) (gone : heap.get? handle = none) :
    Records (.freed handle :: history) heap := by
  have unknown : history.object? handle = none := (records.found handle).symm.trans gone
  have vacated : ∀ index, HeapHistory.vacated index (.freed handle :: history) =
      history.vacated index := by
    intro index
    simp [HeapHistory.vacated, unknown]
  have found : ∀ other, HeapHistory.object? other (.freed handle :: history) =
      history.object? other := by
    intro other
    rw [HeapHistory.object?]
    split
    · rename_i same
      rw [← same, unknown]
    · rfl
  refine ⟨records.reusable, records.emptied, ?_, ?_, records.placed, ?_, records.once⟩
  · intro index
    rw [vacated, records.counted]
  · intro other
    rw [found, records.found]
  · intro other issued
    rw [vacated, found]
    exact records.passed other issued

theorem freed_of_live (records : Records history heap) (live : heap.get? handle = some object)
    (counts : handle.generation + 1 < UInt32.size) :
    Records (.freed handle :: history) (heap.free handle).2 := by
  have bound := (List.getElem?_eq_some_iff.mp (get?_eq_some_iff.mp live)).1
  have there : (history.object? handle).isSome = true := by
    rw [← records.found, live]
    rfl
  have next : HeapHistory.vacated handle.index (.freed handle :: history) =
      handle.generation + 1 := by
    simp [HeapHistory.vacated, there, records.generation_of_live live]
  have others : ∀ index, handle.index ≠ index →
      HeapHistory.vacated index (.freed handle :: history) = history.vacated index := by
    intro index apart
    simp [HeapHistory.vacated, apart]
  have found : ∀ other, (heap.free handle).2.get? other =
      HeapHistory.object? other (.freed handle :: history) := by
    intro other
    rw [HeapHistory.object?, get?_free, records.found]
  have reusable := @free_reusable heap handle records.reusable
  simp only [free, live] at found reusable ⊢
  refine ⟨reusable, ?_, ?_, found, ?_, ?_, records.once⟩
  · intro index slot slots empty
    rw [List.mem_append, List.mem_singleton]
    by_cases same : handle.index = index
    · exact Or.inr same.symm
    · rw [List.getElem?_set_ne same] at slots
      exact Or.inl (records.emptied index slot slots empty)
  · intro index
    by_cases same : handle.index = index
    · subst same
      rw [next, List.getElem?_set_self bound, Nat.mod_eq_of_lt counts]
      rfl
    · rw [others index same, List.getElem?_set_ne same, records.counted]
  · intro other issued
    rw [List.length_set]
    exact records.placed other issued
  · intro other issued
    by_cases same : handle = other
    · subst same
      rw [next]
      exact Or.inl (Nat.lt_succ_self _)
    · rw [HeapHistory.object?, if_neg same]
      refine (records.passed other issued).imp_left fun lower => ?_
      rw [HeapHistory.vacated]
      omega

theorem freed (records : Records history heap) (handle : Handle)
    (counts : HeapHistory.vacated handle.index (.freed handle :: history) < UInt32.size) :
    Records (.freed handle :: history) (heap.free handle).2 := by
  cases live : heap.get? handle with
  | none =>
      simp only [free, live]
      exact records.freed_of_gone live
  | some object =>
      refine records.freed_of_live live ?_
      rw [HeapHistory.vacated, ← records.found, live, records.generation_of_live live] at counts
      simpa using counts

theorem slots (records : Records history heap) :
    (heap.vacant ++ history.live.map Handle.index).Perm (List.range heap.slots.length) := by
  have live : ∀ handle ∈ history.live, ∃ object, heap.get? handle = some object := by
    intro handle among
    rw [HeapHistory.mem_live_iff, ← records.found] at among
    exact Option.isSome_iff_exists.mp among
  have apart : (history.live.map Handle.index).Nodup := by
    refine List.Nodup.map_on ?_ (records.once.filter _)
    intro handle among other also index
    obtain ⟨object, held⟩ := live handle among
    obtain ⟨_, more⟩ := live other also
    have generation := records.generation_of_live held
    rw [index, records.generation_of_live more] at generation
    exact Handle.eq_of_parts index generation.symm
  refine (List.perm_ext_iff_of_nodup ?_ List.nodup_range).mpr fun index => ?_
  · refine List.nodup_append.mpr ⟨records.reusable.distinct, apart, ?_⟩
    rintro index vacant other used rfl
    obtain ⟨handle, among, rfl⟩ := List.mem_map.mp used
    obtain ⟨object, held⟩ := live handle among
    exact not_vacant_of_live records.reusable held vacant
  · rw [List.mem_append, List.mem_range]
    constructor
    · rintro (vacant | used)
      · obtain ⟨slot, held, _⟩ := records.reusable.empty index vacant
        exact (List.getElem?_eq_some_iff.mp held).1
      · obtain ⟨handle, among, rfl⟩ := List.mem_map.mp used
        obtain ⟨object, held⟩ := live handle among
        exact (List.getElem?_eq_some_iff.mp (get?_eq_some_iff.mp held)).1
    · intro bound
      have held := List.getElem?_eq_getElem bound
      generalize heap.slots[index] = slot at held
      obtain ⟨generation, object?⟩ := slot
      cases object? with
      | none => exact Or.inl (records.emptied index _ held rfl)
      | some object =>
          have found : heap.get? ⟨index, generation⟩ = some object := get?_eq_some_iff.mpr held
          rw [records.found] at found
          refine Or.inr (List.mem_map.mpr ⟨⟨index, generation⟩, ?_, rfl⟩)
          rw [HeapHistory.mem_live_iff, found]
          rfl

end Records

end Heap

inductive HeapOperation where
  | allocate (object : Object)
  | get (handle : Handle)
  | modify (handle : Handle) (change : Object → Object)
  | free (handle : Handle)
  | reload

namespace HeapOperation

def apply (heap : Heap) : HeapOperation → Heap
  | .allocate object => (heap.allocate object).2
  | .get _ => heap
  | .modify handle change => heap.update handle change
  | .free handle => (heap.free handle).2
  | .reload => (Snapshot.loadHeap? (Snapshot.saveHeap heap)).getD heap

def record (heap : Heap) (history : HeapHistory) : HeapOperation → HeapHistory
  | .allocate object => .made (heap.allocate object).1 object :: history
  | .modify handle change => .changed handle change :: history
  | .free handle => .freed handle :: history
  | .get _ | .reload => history

end HeapOperation

namespace Heap

/-- What can be done to a heap that started empty, as long as its slots and the objects freed in each
of them are fewer than a word counts. What is saved is read back unchanged. -/
inductive Ran : HeapHistory → Heap → Prop where
  | fresh : Ran [] {}
  | step {history : HeapHistory} {heap : Heap} (ran : Ran history heap) (operation : HeapOperation)
      (few : (operation.apply heap).slots.length < UInt32.size)
      (seldom : ∀ index, (operation.record heap history).vacated index < UInt32.size)
      (readsBack : operation = .reload → heap.ReadsBack) :
      Ran (operation.record heap history) (operation.apply heap)

namespace Ran

variable {history : HeapHistory} {heap : Heap}

theorem few (ran : Ran history heap) : heap.slots.length < UInt32.size := by
  cases ran with
  | fresh => decide
  | step _ _ few => exact few

theorem seldom (ran : Ran history heap) (index : Nat) : history.vacated index < UInt32.size := by
  cases ran with
  | fresh => exact (by decide : 0 < UInt32.size)
  | step _ _ _ seldom => exact seldom index

theorem loaded (ran : Ran history heap) (records : Records history heap)
    (readsBack : heap.ReadsBack) :
    Snapshot.loadHeap? (Snapshot.saveHeap heap) = some heap := by
  refine readsBack.loaded (fun slot among => ?_) fun index vacant => ?_
  · obtain ⟨index, held⟩ := List.mem_iff_getElem?.mp among
    have counted := records.counted index
    rw [held, Option.map_some, Option.getD_some] at counted
    exact counted ▸ ran.seldom index
  · obtain ⟨slot, held, _⟩ := records.reusable.empty index vacant
    exact Nat.lt_trans (List.getElem?_eq_some_iff.mp held).1 ran.few

theorem records (ran : Ran history heap) : Records history heap := by
  induction ran with
  | fresh => exact .fresh
  | step ran operation few seldom readsBack ih =>
      cases operation with
      | allocate object =>
          exact ih.allocated (allocate_reusable ih.reusable object)
            (allocate_places ih.reusable object)
      | get => exact ih
      | modify handle change => exact ih.changed handle change
      | free handle => exact ih.freed handle (seldom handle.index)
      | reload =>
          rw [HeapOperation.apply, ran.loaded ih (readsBack rfl)]
          exact ih

end Ran

end Heap

/-- No handle is given out twice, and a handle finds its own object for as long as that is not freed,
whatever is done to other objects. -/
theorem handles_never_alias {history : HeapHistory} {heap : Heap} (ran : Heap.Ran history heap) :
    history.issued.Nodup ∧
    (∀ handle, heap.get? handle = history.object? handle ∧
      ((heap.get? handle).isSome = true ↔ history.Holds handle)) ∧
    (∀ handle, ((heap.free handle).1 = true ↔ history.Holds handle) ∧
      (¬ history.Holds handle → (heap.free handle).2 = heap)) ∧
    (∀ object, (heap.allocate object).1 ∉ history.issued ∧
      (heap.allocate object).2.get? (heap.allocate object).1 = some object ∧
      ∀ other, (heap.allocate object).1 ≠ other →
        (heap.allocate object).2.get? other = heap.get? other) ∧
    (∀ handle other, handle ≠ other →
      (heap.free handle).2.get? other = heap.get? other ∧
      ∀ change, (heap.update handle change).get? other = heap.get? other) ∧
    heap.size = history.live.length ∧ heap.vacant.length ≤ heap.slots.length ∧
    (∀ index ∈ heap.vacant, index < heap.slots.length) ∧
    (heap.ReadsBack → Snapshot.loadHeap? (Snapshot.saveHeap heap) = some heap) := by
  have records := ran.records
  have slots := records.slots
  have held : ∀ handle, (heap.get? handle).isSome = true ↔ history.Holds handle := by
    intro handle
    rw [records.found, HeapHistory.isSome_object?_iff]
  refine ⟨records.once, fun handle => ⟨records.found handle, held handle⟩, ?_, ?_, ?_, ?_⟩
  · intro handle
    rw [← held]
    cases live : heap.get? handle <;> simp [Heap.free, live]
  · intro object
    have places := Heap.allocate_places records.reusable object
    refine ⟨records.not_issued places, by rw [places.get?, if_pos rfl], fun other apart => ?_⟩
    rw [places.get?, if_neg apart]
  · intro handle other apart
    constructor
    · rw [Heap.get?_free, if_neg apart]
    · intro change
      rw [Heap.get?_update, if_neg apart]
  · have lengths := slots.length_eq
    rw [List.length_append, List.length_map, List.length_range] at lengths
    refine ⟨?_, by omega, fun index vacant => ?_, ran.loaded records⟩
    · rw [Heap.size]
      omega
    · exact List.mem_range.mp (slots.mem_iff.mp (List.mem_append_left _ vacant))

theorem Heap.Ran.more {history : HeapHistory} {heap : Heap} (ran : Heap.Ran history heap)
    (operation : HeapOperation)
    (short : (operation.apply heap).slots.length < UInt32.size ∧
      (operation.record heap history).length < UInt32.size)
    (readsBack : operation = .reload → heap.ReadsBack) :
    Heap.Ran (operation.record heap history) (operation.apply heap) :=
  ran.step operation short.1 (fun index =>
    Nat.lt_of_le_of_lt (HeapHistory.vacated_le_length _ index) short.2) readsBack

def tank (level : Int64) : Object := ⟨"Tank", [.holding "level" .int (.int level)]⟩

def fill (object : Object) : Object :=
  object.updateField "level" fun field => field.set (.int 7)

theorem handles_never_alias_of_tanks :
    let heap : Heap := ⟨[⟨1, some (tank 7)⟩, ⟨0, some (tank 1)⟩], []⟩
    ∃ history, Heap.Ran history heap ∧ history.issued = [⟨0, 1⟩, ⟨1, 0⟩, ⟨0, 0⟩] ∧
      history.issued.Nodup ∧ ¬ history.Holds ⟨0, 0⟩ ∧ history.object? ⟨0, 1⟩ = some (tank 7) ∧
      heap.size = 2 ∧ Snapshot.loadHeap? (Snapshot.saveHeap heap) = some heap := by
  intro heap
  have first : Heap.Ran [.made ⟨0, 0⟩ (tank 1)] ⟨[⟨0, some (tank 1)⟩], []⟩ :=
    Heap.Ran.fresh.more (.allocate (tank 1)) (by decide) nofun
  have second : Heap.Ran [.made ⟨1, 0⟩ (tank 1), .made ⟨0, 0⟩ (tank 1)]
      ⟨[⟨0, some (tank 1)⟩, ⟨0, some (tank 1)⟩], []⟩ :=
    first.more (.allocate (tank 1)) (by decide) nofun
  have vacated : Heap.Ran [.freed ⟨0, 0⟩, .made ⟨1, 0⟩ (tank 1), .made ⟨0, 0⟩ (tank 1)]
      ⟨[⟨1, none⟩, ⟨0, some (tank 1)⟩], [0]⟩ :=
    second.more (.free ⟨0, 0⟩) (by decide) nofun
  have third : Heap.Ran
      [.made ⟨0, 1⟩ (tank 1), .freed ⟨0, 0⟩, .made ⟨1, 0⟩ (tank 1), .made ⟨0, 0⟩ (tank 1)]
      ⟨[⟨1, some (tank 1)⟩, ⟨0, some (tank 1)⟩], []⟩ :=
    vacated.more (.allocate (tank 1)) (by decide) nofun
  have filled : Heap.Ran [.changed ⟨0, 1⟩ fill, .made ⟨0, 1⟩ (tank 1), .freed ⟨0, 0⟩,
      .made ⟨1, 0⟩ (tank 1), .made ⟨0, 0⟩ (tank 1)] heap :=
    third.more (.modify ⟨0, 1⟩ fill) (by decide) nofun
  have readsBack : heap.ReadsBack := by
    refine ⟨fun index slot object found held => ?_, by decide +kernel⟩
    have either : object = tank 7 ∨ object = tank 1 := by
      have listed := List.mem_of_getElem? found
      rcases List.mem_pair.mp listed with rfl | rfl
      · exact Or.inl (Option.some.inj held).symm
      · exact Or.inr (Option.some.inj held).symm
    rcases either with rfl | rfl
    all_goals
      intro field among
      cases List.mem_singleton.mp among
      exact ⟨rfl, rfl⟩
  have loaded := (handles_never_alias filled).2.2.2.2.2.2.2.2 readsBack
  have again := filled.more .reload
  rw [HeapOperation.apply, loaded] at again
  have never := handles_never_alias (again (by decide) fun _ => readsBack)
  refine ⟨_, again (by decide) fun _ => readsBack, rfl, never.1, ?_, ?_, ?_, loaded⟩
  · rw [← (never.2.1 ⟨0, 0⟩).2]
    decide
  · rw [← (never.2.1 ⟨0, 1⟩).1]
    rfl
  · rfl

end ScriptEngine
