import ScriptEngine.Engine
import ScriptEngine.Proofs.ClassPrograms
import ScriptEngine.Proofs.Compiling
import ScriptEngine.Proofs.Resolution
import Mathlib.Data.List.Flatten
/-! What an engine has loaded. Identities are handed out once, so of all the functions that an engine
ever compiled each is known by its identity alone, and what is loaded is found again by it. Both
indexes, of public functions and of methods, hold what is loaded and nothing else. -/

namespace ScriptEngine

def Program.publicFunctions (program : Program) : List Function :=
  program.functions.filter Function.isPublic

namespace Programs

def functions (programs : Programs) : List Function := programs.loaded.flatMap Program.functions

/-- The public functions of the loaded programs, the one declared last first. -/
def publicFunctions (programs : Programs) : List Function :=
  (programs.loaded.flatMap Program.publicFunctions).reverse

end Programs

/-- `known` are the functions that the engine ever compiled, and what it has loaded is of them. -/
structure Engine.Knows (engine : Engine) (known : List Function) : Prop where
  distinct : (known.map Function.id).Nodup
  bounded : ∀ function ∈ known, function.id.number ≤ engine.ids.lastFunction
  listed : engine.code.programs.functions.Sublist known
  belongs : ∀ program ∈ engine.code.programs, ∀ function ∈ program.functions,
    function.program = program.id
  ascending : engine.code.programs.loaded.Pairwise fun first second =>
    first.id.number < second.id.number
  numbered : ∀ program ∈ engine.code.programs, program.id.number ≤ engine.ids.lastProgram
  published : engine.code.published.listed =
    engine.code.programs.publicFunctions.map Function.entry
  noted : engine.code.programs.Noted
  coherent : ∀ function ∈ known, function.Coherent engine.code.classes

namespace Engine.Knows

variable {engine : Engine} {known : List Function}

theorem same (knows : engine.Knows known) {function other : Function} (among : function ∈ known)
    (also : other ∈ known) (ids : function.id = other.id) : function = other :=
  List.inj_on_of_nodup_map knows.distinct among also ids

theorem loaded (knows : engine.Knows known) (program : Program)
    (among : program ∈ engine.code.programs) (function : Function)
    (declared : function ∈ program.functions) :
    function ∈ known ∧ function.program = program.id :=
  ⟨knows.listed.subset (List.mem_flatMap.mpr ⟨program, among, declared⟩),
    knows.belongs program among function declared⟩

theorem programs (knows : engine.Knows known) :
    (engine.code.programs.loaded.map Program.id).Nodup := by
  refine List.pairwise_map.mpr (knows.ascending.imp fun {first second} lower same => ?_)
  exact absurd (congrArg ProgramId.number same) (Nat.ne_of_lt lower)

theorem classMethods (knows : engine.Knows known) (className : String) :
    engine.code.programs.classMethods className =
      engine.code.programs.loaded.flatMap fun program => program.methods className :=
  knows.noted.classMethods knows.programs className

theorem classMethods_insert (knows : engine.Knows known) (program : Program)
    (ids : ((engine.code.programs.insert program).loaded.map Program.id).Nodup)
    (className : String) : (engine.code.programs.insert program).classMethods className =
      engine.code.programs.classMethods className ++ program.methods className := by
  rw [(knows.noted.insert program).classMethods ids, knows.classMethods]
  unfold Programs.insert
  rw [List.flatMap_append, List.flatMap_singleton]

theorem mem_published (knows : engine.Knows known) {entry : FunctionId × Function}
    (among : entry ∈ engine.code.published.listed) : entry.1 = entry.2.id ∧
      ∃ program ∈ engine.code.programs, entry.2 ∈ program.functions ∧ entry.2.isPublic = true := by
  rw [knows.published] at among
  obtain ⟨function, listed, rfl⟩ := List.mem_map.mp among
  obtain ⟨program, loaded, held⟩ := List.mem_flatMap.mp (List.mem_reverse.mp listed)
  obtain ⟨declared, isPublic⟩ := List.mem_filter.mp held
  exact ⟨rfl, program, loaded, declared, isPublic⟩

theorem published_below (knows : engine.Knows known) :
    ∀ entry ∈ engine.code.published.listed, entry.1.number ≤ engine.ids.lastFunction := by
  intro entry among
  obtain ⟨named, program, loaded, declared, _⟩ := knows.mem_published among
  rw [named]
  exact knows.bounded _ (knows.loaded program loaded entry.2 declared).1

theorem function?_iff (knows : engine.Knows known) {program : ProgramId} {id : FunctionId}
    {function : Function} :
    engine.code.programs.function? program id = some function ↔
      ∃ loaded ∈ engine.code.programs, loaded.id = program ∧ function ∈ loaded.functions ∧
        function.id = id := by
  unfold Programs.function? Program.function?
  constructor
  · intro found
    obtain ⟨loaded, got, among⟩ := Option.bind_eq_some_iff.mp found
    have identified := List.find?_some among
    exact ⟨loaded, (Programs.mem_of_get? got).1, (Programs.mem_of_get? got).2,
      List.mem_of_find?_eq_some among, by simpa using identified⟩
  · rintro ⟨loaded, among, rfl, declared, rfl⟩
    have identified : loaded.functions.find? (fun other => other.id = function.id) =
        some function := by
      cases found : loaded.functions.find? fun other => other.id = function.id with
      | none =>
          have missing := List.find?_eq_none.mp found function declared
          simp at missing
      | some other =>
          have named := List.find?_some found
          have also := List.mem_of_find?_eq_some found
          rw [knows.same (knows.loaded loaded among other also).1
            (knows.loaded loaded among function declared).1 (by simpa using named)]
    rw [Programs.get?_of_mem knows.programs among, Option.bind_some, identified]

theorem consistent (knows : engine.Knows known) : engine.code.Consistent := by
  have own : ∀ program ∈ engine.code.programs, ∀ function ∈ program.functions,
      engine.code.Owns function := by
    intro program among function declared
    have belongs := (knows.loaded program among function declared).2
    exact knows.function?_iff.mpr ⟨program, among, belongs.symm, declared, rfl⟩
  refine ⟨own, fun function listed => ?_⟩
  unfold Code.publicFunctions at listed
  rw [PublicIndex.functions_eq] at listed
  obtain ⟨entry, kept, named⟩ := List.mem_filterMap.mp listed
  cases named
  obtain ⟨_, program, among, declared, _⟩ := knows.mem_published kept
  exact own program among entry.2 declared

theorem loaded_eq (knows : engine.Knows known) {function found : Function}
    (among : function ∈ known)
    (loaded : engine.code.programs.function? function.program function.id = some found) :
    found = function := by
  obtain ⟨program, held, _, declared, identified⟩ := knows.function?_iff.mp loaded
  exact knows.same (knows.loaded program held found declared).1 among identified

theorem fresh : ({} : Engine).Knows [] where
  distinct := List.nodup_nil
  bounded := nofun
  listed := .slnil
  belongs := nofun
  ascending := .nil
  numbered := nofun
  published := rfl
  noted := Programs.noted_new
  coherent := nofun

theorem congr {after : Engine} (knows : engine.Knows known)
    (programs : after.code.programs = engine.code.programs)
    (published : after.code.published.listed = engine.code.published.listed)
    (classes : engine.code.classes.Within after.code.classes)
    (functions : engine.ids.lastFunction ≤ after.ids.lastFunction)
    (numbers : engine.ids.lastProgram ≤ after.ids.lastProgram) : after.Knows known where
  distinct := knows.distinct
  bounded := fun function among => Nat.le_trans (knows.bounded function among) functions
  listed := programs ▸ knows.listed
  belongs := programs ▸ knows.belongs
  ascending := programs ▸ knows.ascending
  numbered := by
    rw [programs]
    exact fun program among => Nat.le_trans (knows.numbered program among) numbers
  published := by
    rw [programs, published]
    exact knows.published
  noted := programs ▸ knows.noted
  coherent := fun function among => (knows.coherent function among).within classes

theorem published_remove (knows : engine.Knows known) {program : Program}
    (among : program ∈ engine.code.programs) :
    (engine.code.published.eraseAll (program.all.map Function.id)).listed =
      (engine.code.programs.remove program.id).publicFunctions.map Function.entry := by
  have each : ∀ listed : List Program, (∀ other ∈ listed, other ∈ engine.code.programs) →
      (listed.flatMap fun other => other.publicFunctions.filter fun function =>
          function.id ∉ program.all.map Function.id) =
        (listed.filter fun other => other.id ≠ program.id).flatMap Program.publicFunctions := by
    intro listed
    induction listed with
    | nil => exact fun _ => rfl
    | cons other rest ih =>
        intro loaded
        have here := loaded other (List.mem_cons_self ..)
        have behind := ih fun other later => loaded other (List.mem_cons_of_mem _ later)
        rw [List.flatMap_cons, behind, List.filter_cons]
        by_cases same : other.id = program.id
        · obtain rfl := List.inj_on_of_nodup_map knows.programs here among same
          rw [if_neg (by simp), List.filter_eq_nil_iff.mpr, List.nil_append]
          intro function held
          have declared := Program.mem_all.mpr (List.mem_filter.mp held).1
          simpa using ⟨function, declared, rfl⟩
        · rw [if_pos (by simpa using same), List.flatMap_cons, List.filter_eq_self.mpr]
          intro function held
          have declared := (List.mem_filter.mp held).1
          refine decide_eq_true fun removed => same ?_
          obtain ⟨removed, listed, identified⟩ := List.mem_map.mp removed
          obtain ⟨old, belongs⟩ := knows.loaded other here function declared
          obtain ⟨also, removedFrom⟩ :=
            knows.loaded program among removed (Program.mem_all.mp listed)
          rw [← belongs, ← removedFrom, knows.same old also identified.symm]
  rw [PublicIndex.listed_eraseAll, knows.published, List.filter_map]
  refine congrArg _ ?_
  unfold Programs.publicFunctions
  rw [List.filter_reverse, List.filter_flatMap]
  exact congrArg _ (each _ fun _ among => among)

theorem unload {after : Engine} {id : ProgramId} (knows : engine.Knows known)
    (unloaded : engine.unload id = .ok after) : after.Knows known := by
  unfold Engine.unload at unloaded
  split at unloaded
  · cases unloaded
  · rename_i program got
    cases unloaded
    obtain ⟨among, rfl⟩ := Programs.mem_of_get? got
    have kept : ∀ {loaded : Program}, loaded ∈ engine.code.programs.remove program.id →
        loaded ∈ engine.code.programs := fun among => (List.mem_filter.mp among).1
    exact {
      distinct := knows.distinct
      bounded := knows.bounded
      listed := (List.filter_sublist.flatMap Program.functions).trans knows.listed
      belongs := fun loaded among => knows.belongs loaded (kept among)
      ascending := knows.ascending.sublist List.filter_sublist
      numbered := fun loaded among => knows.numbered loaded (kept among)
      published := knows.published_remove among
      noted := knows.noted.remove program.id
      coherent := knows.coherent }

theorem load {program : Program} {ids : Identities} {published : PublicIndex Function}
    {name source : String} (knows : engine.Knows known)
    (compiled : Compiler.compile engine.compileEnv engine.ids.nextProgram.1 name source
      engine.ids.nextProgram.2 = (.ok program, ids, published)) :
    ({ engine with
        ids
        code := { engine.code with
          programs := engine.code.programs.insert program
          published } } : Engine).Knows (known ++ program.functions) := by
  have made := Compiler.compile_made compiled
  have lastProgram : ids.lastProgram = engine.ids.lastProgram + 1 := by
    rw [made.counted]
    rfl
  have split : ∀ loaded ∈ engine.code.programs.insert program,
      loaded ∈ engine.code.programs ∨ loaded = program :=
    fun loaded among => (List.mem_append.mp among).imp_right List.mem_singleton.mp
  -- What the unit brings is numbered behind all that was known before it.
  refine ⟨?_, ?_, ?_, ?_, ?_, ?_, ?_, knows.noted.insert program, ?_⟩
  · rw [List.map_append, List.nodup_append]
    refine ⟨knows.distinct, made.distinct, fun id old id' new same => ?_⟩
    obtain ⟨function, among, rfl⟩ := List.mem_map.mp old
    obtain ⟨other, declared, rfl⟩ := List.mem_map.mp new
    have before := knows.bounded function among
    have behind := (made.number declared).1
    rw [← same] at behind
    exact Nat.lt_irrefl _ (Nat.lt_of_le_of_lt before behind)
  · intro function among
    rcases List.mem_append.mp among with old | new
    · have before := knows.bounded function old
      rw [made.counted]
      exact Nat.le_trans before (Nat.le_add_right ..)
    · exact (made.number new).2
  · unfold Programs.functions Programs.insert
    rw [List.flatMap_append, List.flatMap_singleton]
    exact knows.listed.append (.refl _)
  · intro loaded among function declared
    rcases split loaded among with old | rfl
    · exact knows.belongs loaded old function declared
    · exact (made.belongs function declared).trans made.named.symm
  · refine List.pairwise_append.mpr ⟨knows.ascending, List.pairwise_singleton .., ?_⟩
    intro old among new listed
    rw [List.mem_singleton.mp listed, made.named]
    exact Nat.lt_succ_of_le (knows.numbered old among)
  · intro loaded among
    rw [lastProgram]
    rcases split loaded among with old | rfl
    · exact Nat.le_succ_of_le (knows.numbered loaded old)
    · rw [made.named]
      exact Nat.le_refl _
  · have listed := Compiler.compile_published compiled knows.published_below
    change published.listed = _ at listed
    rw [show engine.compileEnv.published = engine.code.published from rfl, knows.published] at listed
    have later : (engine.code.programs.insert program).publicFunctions =
        program.publicFunctions.reverse ++ engine.code.programs.publicFunctions := by
      unfold Programs.publicFunctions Programs.insert
      rw [List.flatMap_append, List.flatMap_singleton, List.reverse_append]
    dsimp only
    rw [listed, later, List.map_append, List.map_reverse]
    rfl
  · intro function among
    rcases List.mem_append.mp among with old | new
    · exact knows.coherent function old
    · exact made.coherent function new

theorem compile (knows : engine.Knows known) (name source : String) :
    ∃ more, (engine.compile name source).2.Knows (known ++ more) := by
  unfold Engine.compile
  dsimp only
  cases compiled : Compiler.compile engine.compileEnv engine.ids.nextProgram.1 name source
    engine.ids.nextProgram.2 with
  | mk result after =>
      obtain ⟨ids, published⟩ := after
      cases result with
      | ok program => exact ⟨program.functions, knows.load compiled⟩
      | error error =>
          obtain ⟨count, counted⟩ := Compiler.compile_failed compiled
          refine ⟨[], ?_⟩
          rw [List.append_nil]
          refine knows.congr rfl (Compiler.compile_withdrawn compiled knows.published_below)
            (fun _ _ found => found) ?_ ?_
          · rw [counted]
            exact Nat.le_add_right ..
          · rw [counted]
            exact Nat.le_succ _

end Engine.Knows

end ScriptEngine
