import ScriptEngine.Identity
/-! The index of public functions, the newest first. Entries are numbered as they come in, and each
identity is known by the number of its entry. An entry names its function and does not own it:
whether the function is still there is asked of `live` at each look-up. -/

namespace ScriptEngine

section

variable {κ ν : Type} {entries : List (κ × ν)} {entry other : κ × ν}

theorem entry_unique (keys : (entries.map Prod.fst).Nodup) (among : entry ∈ entries)
    (also : other ∈ entries) (same : entry.1 = other.1) : entry = other := by
  induction entries with
  | nil => cases among
  | cons first rest ih =>
      rw [List.map_cons, List.nodup_cons] at keys
      have apart : ∀ entry ∈ rest, entry.1 ≠ first.1 := fun entry later same =>
        keys.1 (same ▸ List.mem_map_of_mem later)
      rcases List.mem_cons.mp among with first | earlier <;>
        rcases List.mem_cons.mp also with again | later
      · rw [first, again]
      · exact absurd (first ▸ same.symm) (apart other later)
      · exact absurd (again ▸ same) (apart entry earlier)
      · exact ih keys.2 earlier later

theorem lookup_eq_some_iff_mem [BEq κ] [LawfulBEq κ] (keys : (entries.map Prod.fst).Nodup) {key : κ}
    {value : ν} : entries.lookup key = some value ↔ (key, value) ∈ entries := by
  constructor
  · intro found
    obtain ⟨before, behind, split, _⟩ := List.lookup_eq_some_iff.mp found
    simp [split]
  · intro among
    cases found : entries.lookup key with
    | none =>
        have different := List.lookup_eq_none_iff.mp found (key, value) among
        simp at different
    | some other =>
        obtain ⟨before, behind, split, _⟩ := List.lookup_eq_some_iff.mp found
        have there : (key, other) ∈ entries := by simp [split]
        rw [(Prod.mk.inj (entry_unique keys there among rfl)).2]

end

structure PublicIndex (α : Type) where
  /-- By the numbers they came in under, the latest first. -/
  entries : List (Nat × FunctionId × α) := []
  /-- The number of the entry of each identity. -/
  places : List (FunctionId × Nat) := []
  next : Nat := 0
  falling : (entries.map Prod.fst).Pairwise fun newer older => older < newer := by simp
  below : ∀ entry ∈ entries, entry.1 < next := by simp
  single : (places.map Prod.fst).Nodup := by simp
  matched : ∀ id place, (id, place) ∈ places ↔ ∃ function, (place, id, function) ∈ entries := by simp

namespace PublicIndex

variable {α β : Type}

def empty : PublicIndex α := {}

instance : Inhabited (PublicIndex α) := ⟨empty⟩

theorem numbers (index : PublicIndex α) : (index.entries.map Prod.fst).Nodup :=
  index.falling.imp Nat.ne_of_gt

def place? (index : PublicIndex α) (id : FunctionId) : Option Nat := index.places.lookup id

theorem place?_eq_some_iff (index : PublicIndex α) {id : FunctionId} {place : Nat} :
    index.place? id = some place ↔ ∃ function, (place, id, function) ∈ index.entries :=
  (lookup_eq_some_iff_mem index.single).trans (index.matched id place)

theorem number_iff (index : PublicIndex α) {id : FunctionId} {place : Nat}
    (known : index.place? id = some place) {entry : Nat × FunctionId × α}
    (among : entry ∈ index.entries) : entry.1 = place ↔ entry.2.1 = id := by
  obtain ⟨number, other, function⟩ := entry
  constructor
  · rintro rfl
    obtain ⟨held, there⟩ := index.place?_eq_some_iff.mp known
    exact congrArg (fun entry => entry.2.1) (entry_unique index.numbers among there rfl)
  · rintro rfl
    have found := index.place?_eq_some_iff.mpr ⟨function, among⟩
    exact Option.some.inj (found.symm.trans known)

def remove (index : PublicIndex α) (id : FunctionId) : Bool × PublicIndex α :=
  match found : index.place? id with
  | none => (false, index)
  | some place =>
      (true,
        { entries := index.entries.filter fun entry => entry.1 ≠ place
          places := index.places.filter fun known => known.1 ≠ id
          next := index.next
          falling := index.falling.sublist (List.filter_sublist.map _)
          below := fun entry among => index.below entry (List.mem_filter.mp among).1
          single := index.single.sublist (List.filter_sublist.map _)
          matched := by
            intro other number
            simp only [List.mem_filter, decide_eq_true_eq]
            constructor
            · rintro ⟨listed, different⟩
              obtain ⟨function, among⟩ := (index.matched other number).mp listed
              exact ⟨function, among, fun same => different ((index.number_iff found among).mp same)⟩
            · rintro ⟨function, among, different⟩
              exact ⟨(index.matched other number).mpr ⟨function, among⟩,
                fun same => different ((index.number_iff found among).mpr same)⟩ })

def erase (index : PublicIndex α) (id : FunctionId) : PublicIndex α := (index.remove id).2

def eraseAll (index : PublicIndex α) (ids : List FunctionId) : PublicIndex α :=
  ids.foldl erase index

def listed (index : PublicIndex α) : List (FunctionId × α) := index.entries.map Prod.snd

theorem mem_listed {index : PublicIndex α} {id : FunctionId} {function : α} :
    (id, function) ∈ index.listed ↔ ∃ place, (place, id, function) ∈ index.entries := by
  simp [listed]

theorem listed_erase (index : PublicIndex α) (id : FunctionId) :
    (index.erase id).listed = index.listed.filter fun entry => entry.1 ≠ id := by
  unfold erase remove
  split
  · rename_i missing
    refine (List.filter_eq_self.mpr fun entry among => ?_).symm
    obtain ⟨place, held⟩ := mem_listed.mp among
    have different : entry.1 ≠ id := by
      rintro rfl
      rw [index.place?_eq_some_iff.mpr ⟨entry.2, held⟩] at missing
      cases missing
    simpa using different
  · rename_i place found
    unfold listed
    rw [List.filter_map]
    refine congrArg _ (List.filter_congr fun entry among => ?_)
    simp [index.number_iff found among]

theorem listed_eraseAll (index : PublicIndex α) (ids : List FunctionId) :
    (index.eraseAll ids).listed = index.listed.filter fun entry => entry.1 ∉ ids := by
  induction ids generalizing index with
  | nil =>
      refine (List.filter_eq_self.mpr fun entry _ => ?_).symm
      simp
  | cons id rest ih =>
      change ((index.erase id).eraseAll rest).listed = _
      rw [ih, listed_erase, List.filter_filter]
      refine List.filter_congr fun entry _ => ?_
      rw [← Bool.decide_and, decide_eq_decide, List.mem_cons, not_or]
      exact and_comm

def insert (index : PublicIndex α) (id : FunctionId) (function : α) : PublicIndex α :=
  let left := index.erase id
  have fresh : ∀ entry ∈ left.entries, entry.2.1 ≠ id := by
    intro entry among same
    have listed : (entry.2.1, entry.2.2) ∈ left.listed := mem_listed.mpr ⟨entry.1, among⟩
    rw [listed_erase] at listed
    simp [same] at listed
  { entries := (left.next, id, function) :: left.entries
    places := (id, left.next) :: left.places
    next := left.next + 1
    falling := by
      rw [List.map_cons, List.pairwise_cons]
      refine ⟨fun number among => ?_, left.falling⟩
      obtain ⟨entry, held, rfl⟩ := List.mem_map.mp among
      exact left.below entry held
    below := by
      intro entry among
      rcases List.mem_cons.mp among with rfl | old
      · exact Nat.lt_succ_self _
      · exact Nat.lt_succ_of_lt (left.below entry old)
    single := by
      rw [List.map_cons, List.nodup_cons]
      refine ⟨fun known => ?_, left.single⟩
      obtain ⟨⟨other, place⟩, held, same⟩ := List.mem_map.mp known
      obtain ⟨function, among⟩ := (left.matched other place).mp held
      exact fresh _ among same
    matched := by
      intro other place
      rw [List.mem_cons, left.matched]
      constructor
      · rintro (new | ⟨held, among⟩)
        · cases new
          exact ⟨function, List.mem_cons_self ..⟩
        · exact ⟨held, List.mem_cons_of_mem _ among⟩
      · rintro ⟨held, among⟩
        rcases List.mem_cons.mp among with new | old
        · cases new
          exact Or.inl rfl
        · exact Or.inr ⟨held, old⟩ }

theorem listed_insert (index : PublicIndex α) (id : FunctionId) (function : α) :
    (index.insert id function).listed =
      (id, function) :: index.listed.filter fun entry => entry.1 ≠ id := by
  rw [← listed_erase]
  rfl

def contains (index : PublicIndex α) (id : FunctionId) : Bool := (index.place? id).isSome

theorem remove_fst (index : PublicIndex α) (id : FunctionId) :
    (index.remove id).1 = index.contains id := by
  unfold remove contains
  split
  · rename_i missing
    exact (congrArg Option.isSome missing).symm
  · rename_i found
    exact (congrArg Option.isSome found).symm

def ids (index : PublicIndex α) : List FunctionId := index.entries.map fun entry => entry.2.1

def size (index : PublicIndex α) : Nat := index.places.length

def isEmpty (index : PublicIndex α) : Bool := index.places.isEmpty

theorem contains_iff (index : PublicIndex α) {id : FunctionId} :
    index.contains id = true ↔ ∃ function, (id, function) ∈ index.listed := by
  unfold contains
  rw [Option.isSome_iff_exists]
  simp only [place?_eq_some_iff, mem_listed]
  exact exists_comm

theorem ids_eq (index : PublicIndex α) : index.ids = index.listed.map Prod.fst := by
  unfold ids listed
  rw [List.map_map]
  rfl

/-- The function of an identity, if it is in the index and still there. -/
def get? (index : PublicIndex α) (live : α → Option β) (id : FunctionId) : Option β :=
  ((index.place? id).bind fun place => index.entries.lookup place).bind fun entry => live entry.2

theorem get?_eq_some_iff (index : PublicIndex α) {live : α → Option β} {id : FunctionId}
    {found : β} : index.get? live id = some found ↔
      ∃ function, (id, function) ∈ index.listed ∧ live function = some found := by
  constructor
  · intro got
    obtain ⟨⟨other, function⟩, read, alive⟩ := Option.bind_eq_some_iff.mp got
    obtain ⟨place, known, there⟩ := Option.bind_eq_some_iff.mp read
    have among := (lookup_eq_some_iff_mem index.numbers).mp there
    obtain rfl := (index.number_iff known among).mp rfl
    exact ⟨function, mem_listed.mpr ⟨place, among⟩, alive⟩
  · rintro ⟨function, listed, alive⟩
    obtain ⟨place, among⟩ := mem_listed.mp listed
    unfold get?
    rw [index.place?_eq_some_iff.mpr ⟨function, among⟩, Option.bind_some,
      (lookup_eq_some_iff_mem index.numbers).mpr among, Option.bind_some, alive]

def functions (index : PublicIndex α) (live : α → Option β) : List β :=
  index.entries.filterMap fun entry => live entry.2.2

theorem functions_eq (index : PublicIndex α) (live : α → Option β) :
    index.functions live = index.listed.filterMap fun entry => live entry.2 := by
  unfold functions listed
  rw [List.filterMap_map]
  rfl

end PublicIndex

end ScriptEngine
