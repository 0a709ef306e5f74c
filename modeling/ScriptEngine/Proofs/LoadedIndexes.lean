import ScriptEngine.Proofs.Hosting
import ScriptEngine.Proofs.NewestFirst
/-! The two indexes that an engine keeps of what it has loaded, of public functions and of the
methods of each class, are what the loaded programs imply, whatever a host has compiled and unloaded
before and wherever a compilation stopped. -/

namespace ScriptEngine

namespace Code

def owned (code : Code) (function : Function) : Option Function :=
  code.programs.function? function.program function.id

/-- Both indexes are what the loaded programs imply. -/
structure Indexed (code : Code) : Prop where
  /-- Programs are in the order they were loaded. -/
  ascending : code.programs.loaded.Pairwise fun first second => first.id.number < second.id.number
  distinct : (code.programs.functions.map Function.id).Nodup
  publicFunctions : code.publicFunctions = (code.programs.functions.filter Function.isPublic).reverse
  once : code.publicFunctions.Nodup
  /-- No entry refers to a function that is gone. -/
  iterated : code.published.functions code.owned = code.publicFunctions
  single : code.published.ids = code.publicFunctions.map Function.id
  found : ∀ id function, code.published.get? code.owned id = some function ↔
    function ∈ code.publicFunctions ∧ function.id = id
  contains : ∀ id, code.published.contains id = (code.published.get? code.owned id).isSome
  size : code.published.size = code.publicFunctions.length
  methods : ∀ className, code.programs.classMethods className =
    code.programs.loaded.flatMap fun program => program.methods className

/-- The programs that are loaded, the public functions and the methods of each class are the same. -/
structure LoadedAlike (code other : Code) : Prop where
  loaded : code.programs.loaded = other.programs.loaded
  publicFunctions : code.publicFunctions = other.publicFunctions
  methods : ∀ className, code.programs.classMethods className =
    other.programs.classMethods className

end Code

namespace Engine

namespace Knows

variable {engine other : Engine} {known more : List Function}

theorem publicFunctions (knows : engine.Knows known) :
    engine.code.publicFunctions = engine.code.programs.publicFunctions := by
  unfold Code.publicFunctions
  rw [PublicIndex.functions_eq, knows.published, List.filterMap_map]
  exact List.filterMap_some ..

theorem mem_publicFunctions (knows : engine.Knows known) {function : Function} :
    function ∈ engine.code.publicFunctions ↔
      ∃ program ∈ engine.code.programs, function ∈ program.functions ∧ function.isPublic = true := by
  rw [knows.publicFunctions]
  simp only [Programs.publicFunctions, Program.publicFunctions, List.mem_reverse, List.mem_flatMap,
    List.mem_filter]
  rfl

theorem owned_of_mem (knows : engine.Knows known) {function : Function}
    (among : function ∈ engine.code.publicFunctions) :
    engine.code.owned function = some function := by
  obtain ⟨program, loaded, declared, _⟩ := knows.mem_publicFunctions.mp among
  have belongs := (knows.loaded program loaded function declared).2
  exact knows.function?_iff.mpr ⟨program, loaded, belongs.symm, declared, rfl⟩

theorem entry_iff (knows : engine.Knows known) {id : FunctionId} {function : Function} :
    (id, function) ∈ engine.code.published.listed ↔
      function ∈ engine.code.publicFunctions ∧ function.id = id := by
  rw [knows.published, knows.publicFunctions, List.mem_map]
  constructor
  · rintro ⟨other, among, same⟩
    cases same
    exact ⟨among, rfl⟩
  · rintro ⟨among, rfl⟩
    exact ⟨function, among, rfl⟩

theorem found_iff (knows : engine.Knows known) {id : FunctionId} {function : Function} :
    engine.code.published.get? engine.code.owned id = some function ↔
      function ∈ engine.code.publicFunctions ∧ function.id = id := by
  rw [PublicIndex.get?_eq_some_iff, ← knows.entry_iff]
  constructor
  · rintro ⟨entered, listed, alive⟩
    rw [knows.owned_of_mem (knows.entry_iff.mp listed).1] at alive
    cases alive
    exact listed
  · intro listed
    exact ⟨function, listed, knows.owned_of_mem (knows.entry_iff.mp listed).1⟩

theorem indexed (knows : engine.Knows known) : engine.code.Indexed where
  ascending := knows.ascending
  distinct := knows.distinct.sublist (knows.listed.map Function.id)
  publicFunctions := by
    rw [knows.publicFunctions, Programs.publicFunctions, Programs.functions, List.filter_flatMap]
    rfl
  once := by
    rw [knows.publicFunctions, Programs.publicFunctions, List.nodup_reverse]
    have declared : (engine.code.programs.loaded.flatMap Program.publicFunctions).Sublist
        engine.code.programs.functions := by
      unfold Programs.functions Program.publicFunctions
      rw [← List.filter_flatMap]
      exact List.filter_sublist
    exact .of_map _ (knows.distinct.sublist ((declared.trans knows.listed).map Function.id))
  iterated := by
    have each : ∀ entry ∈ engine.code.published.listed,
        engine.code.owned entry.2 = some entry.2 := fun entry listed =>
      knows.owned_of_mem (knows.entry_iff.mp listed).1
    unfold Code.publicFunctions
    rw [PublicIndex.functions_eq, PublicIndex.functions_eq]
    exact List.filterMap_congr each
  single := by
    rw [PublicIndex.ids_eq, knows.published, knows.publicFunctions, List.map_map]
    rfl
  found := fun _ _ => knows.found_iff
  contains := by
    intro id
    rw [Bool.eq_iff_iff, PublicIndex.contains_iff, Option.isSome_iff_exists]
    simp only [knows.found_iff, knows.entry_iff]
  size := by
    rw [PublicIndex.size_eq, knows.published, knows.publicFunctions, List.length_map]
  methods := knows.classMethods

theorem alike (knows : engine.Knows known) (also : other.Knows more)
    (loaded : engine.code.programs.loaded = other.code.programs.loaded) :
    engine.code.LoadedAlike other.code where
  loaded := loaded
  publicFunctions := by
    rw [knows.publicFunctions, also.publicFunctions, Programs.publicFunctions, loaded]
    rfl
  methods := by
    intro className
    rw [knows.classMethods, also.classMethods, loaded]

theorem unload_compiled {after : Engine} {program : Program} (knows : engine.Knows known)
    (later : after.Knows more)
    (loaded : after.code.programs.loaded = engine.code.programs.loaded ++ [program]) :
    ∃ left, after.unload program.id = .ok left ∧ left.code.LoadedAlike engine.code := by
  have among : program ∈ after.code.programs.loaded := by
    rw [loaded]
    exact List.mem_append_right _ (List.mem_singleton_self program)
  have got := Programs.get?_of_mem later.programs among
  obtain ⟨left, unloaded⟩ : ∃ left, after.unload program.id = .ok left := by
    unfold Engine.unload
    rw [got]
    exact ⟨_, rfl⟩
  refine ⟨left, unloaded, (later.unload unloaded).alike knows ?_⟩
  have behind := later.ascending
  rw [loaded, List.pairwise_append] at behind
  have others : ∀ other ∈ engine.code.programs.loaded, decide (other.id ≠ program.id) = true := by
    intro other before
    have lower := behind.2.2 other before program (List.mem_singleton_self program)
    exact decide_eq_true fun same => Nat.ne_of_lt lower (congrArg ProgramId.number same)
  unfold Engine.unload at unloaded
  rw [got] at unloaded
  cases unloaded
  change after.code.programs.loaded.filter _ = _
  rw [loaded, List.filter_append, List.filter_eq_self.mpr others]
  simp

end Knows

theorem compile_loaded (engine : Engine) (name source : String) :
    match engine.compile name source with
    | (.ok id, after) => ∃ program, program.id = id ∧
        after.code.programs.loaded = engine.code.programs.loaded ++ [program]
    | (.error _, after) => after.code.programs.loaded = engine.code.programs.loaded := by
  unfold compile
  dsimp only
  cases compiled : Compiler.compile engine.compileEnv engine.ids.nextProgram.1 name source
    engine.ids.nextProgram.2 with
  | mk result behind =>
      obtain ⟨ids, published⟩ := behind
      cases result with
      | error error => rfl
      | ok program => exact ⟨program, (Compiler.compile_made compiled).named, rfl⟩

theorem unload_loaded (engine : Engine) (id : ProgramId) :
    match engine.unload id with
    | .ok after => after.code.programs.loaded =
        engine.code.programs.loaded.filter fun program => program.id ≠ id
    | .error _ => ∀ program ∈ engine.code.programs, program.id ≠ id := by
  unfold unload
  cases got : engine.code.programs.get? id with
  | none => exact fun program among => by simpa using List.find?_eq_none.mp got program among
  | some program => rfl

end Engine

/-- Whatever was compiled and unloaded before, both indexes are what the loaded programs imply. What
compiles is loaded behind the others, and unloading it again leaves both indexes as they were; what
does not compile, wherever it stops, leaves them so at once. -/
theorem indexes_follow_programs (operations : List Operation) :
    let engine := (Host.after operations).engine
    engine.code.Indexed ∧
    (∀ name source, match engine.compile name source with
      | (.ok id, after) =>
          (∃ program, program.id = id ∧
            after.code.programs.loaded = engine.code.programs.loaded ++ [program]) ∧
          ∃ left, after.unload id = .ok left ∧ left.code.LoadedAlike engine.code
      | (.error _, after) => after.code.LoadedAlike engine.code) ∧
    ∀ id, match engine.unload id with
      | .ok after => after.code.programs.loaded =
          engine.code.programs.loaded.filter fun program => program.id ≠ id
      | .error _ => ∀ program ∈ engine.code.programs, program.id ≠ id := by
  obtain ⟨known, knows⟩ := Host.after_knows operations
  intro engine
  refine ⟨knows.indexed, fun name source => ?_, engine.unload_loaded⟩
  obtain ⟨more, later⟩ := knows.compile name source
  have loaded := engine.compile_loaded name source
  generalize engine.compile name source = compiled at later loaded ⊢
  obtain ⟨result, after⟩ := compiled
  cases result with
  | error error => exact later.alike knows loaded
  | ok id =>
      obtain ⟨program, rfl, loaded⟩ := loaded
      exact ⟨⟨program, rfl, loaded⟩, knows.unload_compiled later loaded⟩

def unitsLeft : List Operation :=
  [.register { name := "C" },
    .compile "first" "public int one() { return 1; } class C { int m() { return 1; } }",
    .compile "second" "public int two() { return 2; } class C { int n() { return 2; } }",
    .compile "third" "public int three() { return 3; }", .unload ⟨1⟩]

def brokenUnit : String := "public int here() { return 1; } int there() { return missing; }"

theorem indexes_follow_programs_of_broken :
    let engine := (Host.after unitsLeft).engine
    (engine.code.publicFunctions.map fun function => function.name) = ["three", "two"] ∧
    ((engine.code.programs.classMethods "C").map fun function => function.name) = ["n"] ∧
    ∃ error after, engine.compile "broken" brokenUnit = (.error error, after) ∧
      after.code.LoadedAlike engine.code := by
  intro engine
  have fails : (engine.compile "broken" brokenUnit).1.isOk = false := by decide +kernel
  have follows := (indexes_follow_programs unitsLeft).2.1 "broken" brokenUnit
  refine ⟨by decide +kernel, by decide +kernel, ?_⟩
  generalize engine.compile "broken" brokenUnit = compiled at fails follows ⊢
  obtain ⟨result, after⟩ := compiled
  cases result with
  | ok id => cases fails
  | error error => exact ⟨error, after, rfl, follows⟩

end ScriptEngine
