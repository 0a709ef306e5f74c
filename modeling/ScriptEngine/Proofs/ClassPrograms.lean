import ScriptEngine.Program
import ScriptEngine.PublicIndex
import Mathlib.Data.List.Nodup
import Mathlib.Data.String.Basic
/-! The programs that have methods for a class. They are noted class by class as programs come and go,
which comes to the same as looking through all loaded programs in the order they were loaded. -/

namespace ScriptEngine

theorem mem_insertName {name other : String} {names : List String} :
    other ∈ insertName name names ↔ other = name ∨ other ∈ names := by
  induction names with
  | nil => simp [insertName]
  | cons first rest ih =>
      rw [insertName]
      split
      · exact List.mem_cons
      · split
        · rename_i same
          simp [same]
        · rw [List.mem_cons, ih, List.mem_cons]
          exact or_left_comm

theorem pairwise_insertName {name : String} {names : List String}
    (sorted : names.Pairwise (· < ·)) : (insertName name names).Pairwise (· < ·) := by
  induction names with
  | nil => exact List.pairwise_singleton ..
  | cons first rest ih =>
      obtain ⟨least, behind⟩ := List.pairwise_cons.mp sorted
      rw [insertName]
      split
      · rename_i before
        refine List.pairwise_cons.mpr ⟨fun other among => ?_, sorted⟩
        rcases List.mem_cons.mp among with rfl | later
        · exact before
        · exact before.trans (least other later)
      · rename_i notBefore
        split
        · exact sorted
        · rename_i different
          refine List.pairwise_cons.mpr ⟨fun other among => ?_, ih behind⟩
          rcases mem_insertName.mp among with rfl | later
          · exact lt_of_le_of_ne (not_lt.mp notBefore) (Ne.symm different)
          · exact least other later

namespace Program

variable {program : Program} {className : String} {function : Function}

theorem nodup_methodClasses (program : Program) : program.methodClasses.Nodup := by
  unfold methodClasses
  generalize program.functions.filterMap _ = names
  have sorted : (names.foldr insertName []).Pairwise (· < ·) := by
    induction names with
    | nil => exact .nil
    | cons name rest ih => exact pairwise_insertName ih
  exact sorted.imp ne_of_lt

theorem mem_methodClasses : className ∈ program.methodClasses ↔
    ∃ function ∈ program.functions, function.signature.classBlock = some className := by
  have listed : ∀ names : List String, className ∈ names.foldr insertName [] ↔
      className ∈ names := by
    intro names
    induction names with
    | nil => exact Iff.rfl
    | cons name rest ih => rw [List.foldr_cons, mem_insertName, ih, List.mem_cons]
  rw [methodClasses, listed, List.mem_filterMap]

theorem methods_eq_nil (missing : className ∉ program.methodClasses) :
    program.methods className = [] := by
  refine List.filter_eq_nil_iff.mpr fun function declared enclosed => missing ?_
  exact mem_methodClasses.mpr ⟨function, declared, of_decide_eq_true enclosed⟩

theorem mem_all : function ∈ program.all ↔ function ∈ program.functions := by
  simp only [all, free, methods, List.mem_append, List.mem_flatMap, List.mem_filter,
    decide_eq_true_eq]
  constructor
  · rintro (⟨declared, _⟩ | ⟨_, _, declared, _⟩) <;> exact declared
  · intro declared
    cases block : function.signature.classBlock with
    | none => exact Or.inl ⟨declared, rfl⟩
    | some className =>
        exact Or.inr ⟨className, mem_methodClasses.mpr ⟨function, declared, block⟩, declared, rfl⟩

end Program

namespace Programs

variable {programs : Programs} {className other : String} {id : ProgramId}
  {noted : List (String × List ProgramId)}

theorem mem_keys_noteMethods :
    other ∈ (noteMethods id className noted).map Prod.fst ↔
      other = className ∨ other ∈ noted.map Prod.fst := by
  induction noted with
  | nil => simp [noteMethods]
  | cons entry rest ih =>
      rw [noteMethods]
      split
      · rename_i same
        simp [same]
      · rw [List.map_cons, List.mem_cons, ih, List.map_cons, List.mem_cons]
        exact or_left_comm

theorem nodup_noteMethods (keys : (noted.map Prod.fst).Nodup) :
    ((noteMethods id className noted).map Prod.fst).Nodup := by
  induction noted with
  | nil => exact List.nodup_cons.mpr ⟨List.not_mem_nil, List.nodup_nil⟩
  | cons entry rest ih =>
      obtain ⟨once, behind⟩ := List.nodup_cons.mp keys
      rw [noteMethods]
      split
      · rename_i same
        exact List.nodup_cons.mpr ⟨same ▸ once, behind⟩
      · rename_i different
        refine List.nodup_cons.mpr ⟨fun again => ?_, ih behind⟩
        exact (mem_keys_noteMethods.mp again).elim different once

theorem lookup_noteMethods : ((noteMethods id className noted).lookup other).getD [] =
    (noted.lookup other).getD [] ++ if other = className then [id] else [] := by
  induction noted with
  | nil =>
      by_cases same : other = className
      · simp [noteMethods, same]
      · simp [noteMethods, List.lookup_cons, beq_false_of_ne same, same]
  | cons entry rest ih =>
      obtain ⟨name, ids⟩ := entry
      rw [noteMethods]
      split
      · rename_i here
        obtain rfl : name = className := here
        by_cases same : other = name
        · simp [same]
        · simp [List.lookup_cons, beq_false_of_ne same, same]
      · rename_i elsewhere
        by_cases same : other = name
        · have different : other ≠ className := fun equal => elsewhere (same ▸ equal)
          simp [same ▸ different, same]
        · simp only [List.lookup_cons, beq_false_of_ne same, ih]

theorem noteMethods_each {classes : List String} (distinct : classes.Nodup) :
    ∀ {noted : List (String × List ProgramId)}, (noted.map Prod.fst).Nodup →
      let behind := classes.foldl (fun noted className => noteMethods id className noted) noted
      (behind.map Prod.fst).Nodup ∧ ∀ className, (behind.lookup className).getD [] =
        (noted.lookup className).getD [] ++ if className ∈ classes then [id] else [] := by
  induction classes with
  | nil =>
      intro noted keys
      exact ⟨keys, fun className => by simp⟩
  | cons first rest ih =>
      intro noted keys
      obtain ⟨once, others⟩ := List.nodup_cons.mp distinct
      obtain ⟨single, found⟩ := ih others (nodup_noteMethods keys)
      refine ⟨single, fun className => (found className).trans ?_⟩
      rw [lookup_noteMethods]
      by_cases same : className = first
      · subst same
        simp [once]
      · simp [same]

theorem mem_keys_forget (among : other ∈ (forget id noted).map Prod.fst) :
    other ∈ noted.map Prod.fst := by
  induction noted with
  | nil => cases among
  | cons entry rest ih =>
      rw [forget] at among
      split at among
      · exact List.mem_cons_of_mem _ (ih among)
      · rcases List.mem_cons.mp among with rfl | later
        · exact List.mem_cons_self ..
        · exact List.mem_cons_of_mem _ (ih later)

theorem nodup_forget (keys : (noted.map Prod.fst).Nodup) :
    ((forget id noted).map Prod.fst).Nodup := by
  induction noted with
  | nil => exact List.nodup_nil
  | cons entry rest ih =>
      obtain ⟨once, behind⟩ := List.nodup_cons.mp keys
      rw [forget]
      split
      · exact ih behind
      · exact List.nodup_cons.mpr ⟨fun again => once (mem_keys_forget again), ih behind⟩

theorem lookup_forget (keys : (noted.map Prod.fst).Nodup) :
    ((forget id noted).lookup className).getD [] =
      ((noted.lookup className).getD []).filter (· ≠ id) := by
  induction noted with
  | nil => rfl
  | cons entry rest ih =>
      obtain ⟨name, ids⟩ := entry
      obtain ⟨once, behind⟩ := List.nodup_cons.mp keys
      rw [forget]
      by_cases same : className = name
      · subst same
        have missing : (forget id rest).lookup className = none := by
          refine List.lookup_eq_none_iff.mpr fun entry among => ?_
          have known := mem_keys_forget (List.mem_map_of_mem (f := Prod.fst) among)
          exact bne_iff_ne.mpr fun same => once (same ▸ known)
        split
        · rename_i emptied
          simpa [missing] using emptied
        · simp
      · split
        · simp only [List.lookup_cons, beq_false_of_ne same, ih behind]
        · simp only [List.lookup_cons, beq_false_of_ne same, ih behind]

/-- Each class has its programs noted in the order they were loaded. -/
structure Noted (programs : Programs) : Prop where
  keys : (programs.byClass.map Prod.fst).Nodup
  holders : ∀ className, programs.holders className =
    (programs.loaded.filter fun program => className ∈ program.methodClasses).map Program.id

theorem noted_new : Noted {} := ⟨List.nodup_nil, fun _ => rfl⟩

theorem Noted.insert (noted : programs.Noted) (program : Program) :
    (programs.insert program).Noted := by
  have all := @noteMethods_each program.id _ program.nodup_methodClasses _ noted.keys
  refine ⟨all.1, fun className => (all.2 className).trans ?_⟩
  have before := noted.holders className
  unfold Programs.holders at before
  rw [before, Programs.insert, List.filter_append, List.map_append]
  by_cases has : className ∈ program.methodClasses <;> simp [has]

theorem Noted.remove (noted : programs.Noted) (id : ProgramId) : (programs.remove id).Noted := by
  refine ⟨nodup_forget noted.keys, fun className => (lookup_forget noted.keys).trans ?_⟩
  have before := noted.holders className
  unfold Programs.holders at before
  rw [before, Programs.remove, List.filter_map, List.filter_filter, List.filter_filter]
  refine congrArg _ (List.filter_congr fun program _ => ?_)
  exact Bool.and_comm ..

theorem get?_of_mem {program : Program} (ids : (programs.loaded.map Program.id).Nodup)
    (among : program ∈ programs) : programs.get? program.id = some program := by
  unfold get?
  cases found : programs.loaded.find? fun other => other.id = program.id with
  | none =>
      have missing := List.find?_eq_none.mp found program among
      simp at missing
  | some other =>
      have named := List.find?_some found
      rw [List.inj_on_of_nodup_map ids (List.mem_of_find?_eq_some found) among (by simpa using named)]

theorem Noted.classMethods (noted : programs.Noted) (ids : (programs.loaded.map Program.id).Nodup)
    (className : String) :
    programs.classMethods className =
      programs.loaded.flatMap fun program => program.methods className := by
  rw [Programs.classMethods, noted.holders, List.flatMap_map]
  have each : ∀ listed : List Program, (∀ program ∈ listed, program ∈ programs) →
      ((listed.filter fun program => className ∈ program.methodClasses).flatMap fun program =>
          ((programs.get? program.id).map fun program => program.methods className).getD []) =
        listed.flatMap fun program => program.methods className := by
    intro listed
    induction listed with
    | nil => exact fun _ => rfl
    | cons program rest ih =>
        intro loaded
        have behind := ih fun other later => loaded other (List.mem_cons_of_mem _ later)
        rw [List.filter_cons, List.flatMap_cons]
        split
        · rw [List.flatMap_cons, behind, get?_of_mem ids (loaded program (List.mem_cons_self ..))]
          rfl
        · rename_i missing
          rw [behind, Program.methods_eq_nil (by simpa using missing), List.nil_append]
  exact each programs.loaded fun _ among => among

end Programs

end ScriptEngine
