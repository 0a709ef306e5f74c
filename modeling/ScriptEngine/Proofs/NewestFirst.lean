import Mathlib.Data.List.Nodup
import Mathlib.Data.List.Perm.Basic
import ScriptEngine.PublicIndex
/-! The index of public functions is a list of what was put in, the newest first. A function that is put in
again moves to the front, and one that nothing owns any more keeps its place without being found. -/

namespace ScriptEngine

namespace PublicIndex

variable {α : Type}

theorem nodup_ids (index : PublicIndex α) : index.ids.Nodup := by
  have apart : ∀ first ∈ index.entries, ∀ second ∈ index.entries,
      first.2.1 = second.2.1 → first = second := by
    intro first among second also same
    have here := index.place?_eq_some_iff.mpr ⟨first.2.2, among⟩
    exact entry_unique index.numbers among also ((index.number_iff here also).mpr same.symm).symm
  have entries : index.entries.Nodup := .of_map _ index.numbers
  exact entries.map_on fun first among second also => apart first among second also

theorem size_eq (index : PublicIndex α) : index.size = index.listed.length := by
  have same : (index.places.map Prod.fst).Perm index.ids := by
    refine (List.perm_ext_iff_of_nodup index.single index.nodup_ids).mpr fun id => ?_
    rw [ids_eq]
    simp only [List.mem_map, Prod.exists, exists_and_right, exists_eq_right, mem_listed,
      index.matched]
    exact exists_comm
  have lengths := same.length_eq
  rwa [ids_eq, List.length_map, List.length_map] at lengths

/-- What is done to an index and to the functions in it. A function is let go by the last that owns it. -/
inductive Use (α : Type) where
  | insert (id : FunctionId) (function : α)
  | remove (id : FunctionId)
  | letGo (function : α)

/-- An index, and the functions that nothing owns any more. -/
structure Register (α : Type) where
  index : PublicIndex α := .empty
  gone : List α := []

/-- Identities with their functions, the newest first, in place of the index. -/
structure Listing (α : Type) where
  entries : List (FunctionId × α) := []
  gone : List α := []

/-- What is reported of the uses of a state, one behind the other, and the state behind them. -/
def run {σ : Type} (use : σ → Use α → Option Bool × σ) : σ → List (Use α) → List (Option Bool) × σ
  | state, [] => ([], state)
  | state, next :: rest =>
      let (report, later) := use state next
      let (reports, last) := run use later rest
      (report :: reports, last)

namespace Register

def use (register : Register α) : Use α → Option Bool × Register α
  | .insert id function => (none, { register with index := register.index.insert id function })
  | .remove id =>
      let (found, index) := register.index.remove id
      (some found, { register with index })
  | .letGo function => (none, { register with gone := function :: register.gone })

def live [DecidableEq α] (register : Register α) (function : α) : Option α :=
  if function ∈ register.gone then none else some function

end Register

namespace Listing

def ids (listing : Listing α) : List FunctionId := listing.entries.map Prod.fst

def without (listing : Listing α) (id : FunctionId) : List (FunctionId × α) :=
  listing.entries.filter fun entry => entry.1 ≠ id

def use (listing : Listing α) : Use α → Option Bool × Listing α
  | .insert id function => (none, { listing with entries := (id, function) :: listing.without id })
  | .remove id => (some (id ∈ listing.ids), { listing with entries := listing.without id })
  | .letGo function => (none, { listing with gone := function :: listing.gone })

def owned [DecidableEq α] (listing : Listing α) : List (FunctionId × α) :=
  listing.entries.filter fun entry => entry.2 ∉ listing.gone

end Listing

structure Mirrors (register : Register α) (listing : Listing α) : Prop where
  listed : register.index.listed = listing.entries
  gone : register.gone = listing.gone

/-- All that can be asked of an index is answered as by the list. -/
structure Answers [DecidableEq α] (register : Register α) (listing : Listing α) : Prop where
  ids : register.index.ids = listing.ids
  once : listing.ids.Nodup
  size : register.index.size = listing.ids.length
  isEmpty : register.index.isEmpty = listing.ids.isEmpty
  contains : ∀ id, register.index.contains id = decide (id ∈ listing.ids)
  functions : register.index.functions register.live = listing.owned.map Prod.snd
  found : ∀ id, register.index.get? register.live id = listing.owned.lookup id

section

variable [DecidableEq α] {register : Register α} {listing : Listing α}

theorem Register.live_eq_some_iff {function found : α} :
    register.live function = some found ↔ function ∉ register.gone ∧ function = found := by
  unfold live
  split <;> simp_all

theorem Listing.mem_owned {id : FunctionId} {function : α} : (id, function) ∈ listing.owned ↔
    (id, function) ∈ listing.entries ∧ function ∉ listing.gone := by
  simp [owned]

theorem Listing.owned_sublist (listing : Listing α) :
    (listing.owned.map Prod.fst).Sublist listing.ids := List.filter_sublist.map _

end

namespace Mirrors

variable {register : Register α} {listing : Listing α}

theorem contains (mirrors : Mirrors register listing) (id : FunctionId) :
    register.index.contains id = decide (id ∈ listing.ids) := by
  rw [Bool.eq_iff_iff, contains_iff, mirrors.listed, decide_eq_true_eq, Listing.ids, List.mem_map]
  simp

theorem use (mirrors : Mirrors register listing) (next : Use α) :
    (register.use next).1 = (listing.use next).1 ∧
      Mirrors (register.use next).2 (listing.use next).2 := by
  cases next with
  | insert id function =>
      refine ⟨rfl, ?_, mirrors.gone⟩
      simp only [Register.use, Listing.use, Listing.without, listed_insert, mirrors.listed]
  | remove id =>
      refine ⟨congrArg some ((remove_fst ..).trans (mirrors.contains id)), ?_, mirrors.gone⟩
      change (register.index.erase id).listed = listing.without id
      rw [listed_erase, mirrors.listed]
      rfl
  | letGo function => exact ⟨rfl, mirrors.listed, congrArg (function :: ·) mirrors.gone⟩

theorem run (mirrors : Mirrors register listing) (uses : List (Use α)) :
    (run Register.use register uses).1 = (run Listing.use listing uses).1 ∧
      Mirrors (PublicIndex.run Register.use register uses).2
        (PublicIndex.run Listing.use listing uses).2 := by
  induction uses generalizing register listing with
  | nil => exact ⟨rfl, mirrors⟩
  | cons next rest ih =>
      obtain ⟨same, later⟩ := mirrors.use next
      obtain ⟨reports, last⟩ := ih later
      exact ⟨congrArg₂ List.cons same reports, last⟩

theorem answers [DecidableEq α] (mirrors : Mirrors register listing) : Answers register listing := by
  have ids : register.index.ids = listing.ids := by
    rw [ids_eq, mirrors.listed, Listing.ids]
  have once : listing.ids.Nodup := ids ▸ register.index.nodup_ids
  have size : register.index.size = listing.ids.length := by
    rw [size_eq, mirrors.listed, Listing.ids, List.length_map]
  refine ⟨ids, once, size, ?_, mirrors.contains, ?_, fun id => ?_⟩
  · rw [Bool.eq_iff_iff, isEmpty, List.isEmpty_iff_length_eq_zero, List.isEmpty_iff_length_eq_zero,
      ← size]
    rfl
  · rw [functions_eq, mirrors.listed, Listing.owned, ← List.filterMap_eq_map, List.filterMap_filter]
    refine List.filterMap_congr fun entry _ => ?_
    rw [Register.live, mirrors.gone]
    by_cases gone : entry.2 ∈ listing.gone <;> simp [gone]
  · ext function
    rw [get?_eq_some_iff, mirrors.listed,
      lookup_eq_some_iff_mem (once.sublist listing.owned_sublist), Listing.mem_owned]
    simp only [Register.live_eq_some_iff, mirrors.gone]
    constructor
    · rintro ⟨_, among, kept, rfl⟩
      exact ⟨among, kept⟩
    · rintro ⟨among, kept⟩
      exact ⟨function, among, kept, rfl⟩

end Mirrors

end PublicIndex

open PublicIndex

theorem index_is_newest_first {α : Type} [DecidableEq α] (uses : List (Use α)) :
    (run Register.use {} uses).1 = (run Listing.use {} uses).1 ∧
      Answers (run Register.use {} uses).2 (run Listing.use {} uses).2 := by
  have mirrors : Mirrors ({} : Register α) {} := ⟨rfl, rfl⟩
  obtain ⟨reports, last⟩ := mirrors.run uses
  exact ⟨reports, last.answers⟩

example :
    let uses : List (Use Char) := [.insert ⟨1⟩ 'a', .insert ⟨2⟩ 'b', .insert ⟨1⟩ 'c', .letGo 'b',
      .remove ⟨3⟩]
    let (reports, register) := run Register.use {} uses
    reports.getLast? = some (some false) ∧ register.index.ids = [⟨1⟩, ⟨2⟩] ∧
      register.index.functions register.live = ['c'] := by decide

end ScriptEngine
