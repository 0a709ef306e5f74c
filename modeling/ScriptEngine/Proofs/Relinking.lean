import ScriptEngine.Proofs.Linking
import ScriptEngine.Proofs.LoadedIndexes
import ScriptEngine.Proofs.Sites
/-! Links stay. A program that is loaded later adds methods behind those of the others and public
functions in front of them, so all calls find what they were compiled with, and the calls of the new
program find it from the start. -/

namespace ScriptEngine

structure Engine.Adds (engine after : Engine) (added : List Program) : Prop where
  grows : engine.code.classes.Grows after.code.classes
  programs : after.code.programs.loaded = engine.code.programs.loaded ++ added

section

variable {engine after : Engine} {known more : List Function} {added : List Program}
  (knows : engine.Knows known) (later : after.Knows more) (adds : engine.Adds after added)

include adds

theorem Engine.Adds.mem {program : Program} :
    program ∈ after.code.programs ↔ program ∈ engine.code.programs ∨ program ∈ added := by
  change program ∈ after.code.programs.loaded ↔ _
  rw [adds.programs, List.mem_append]
  rfl

include later

theorem Engine.Adds.apart {program other : Program} (old : program ∈ engine.code.programs)
    (new : other ∈ added) : other.id ≠ program.id := by
  have distinct := later.programs
  rw [adds.programs, List.map_append] at distinct
  intro same
  exact List.disjoint_of_nodup_append distinct (List.mem_map_of_mem old)
    (same ▸ List.mem_map_of_mem new)

include knows

theorem Engine.Adds.classMethods (className : String) : after.code.programs.classMethods className =
    engine.code.programs.classMethods className ++
      added.flatMap fun program => program.methods className := by
  rw [later.classMethods, knows.classMethods, adds.programs, List.flatMap_append]

theorem Engine.Adds.owns {function : Function} (owns : engine.code.Owns function) :
    after.code.Owns function := by
  obtain ⟨program, loaded, _, declared⟩ := knows.program_of_owns owns
  exact later.consistent.own program (adds.mem.mpr (Or.inl loaded)) function declared

theorem Engine.Adds.means {call : CallSite × List Expr} {id : FunctionId}
    (means : engine.code.Means call id) : after.code.Means call id := by
  cases dispatches : call.1.hasReceiver with
  | false => exact (Code.means_free dispatches).mpr ((Code.means_free dispatches).mp means)
  | true =>
      obtain ⟨method, same, ⟨className, among⟩, fits, compiled, owns, named, returns⟩ :=
        (Code.means_method dispatches).mp means
      refine (Code.means_method dispatches).mpr ⟨method, same, ⟨className, ?_⟩,
        fits.grows adds.grows, compiled, adds.owns knows later owns, named, ?_⟩
      · rw [adds.classMethods knows later]
        exact List.mem_append_left _ among
      · exact DataType.specializes_mono (fun _ _ => adds.grows.derives) returns

theorem Engine.Adds.covers {program : Program} (loaded : program ∈ engine.code.programs)
    {names : CallScope} (covers : engine.code.Covers program names) :
    after.code.Covers program names where
  grows := covers.grows.trans adds.grows
  own := covers.own
  published := by
    intro callable among
    obtain ⟨function, listed, viewed⟩ := covers.published callable among
    obtain ⟨holder, held, declared, isPublic⟩ := knows.mem_publicFunctions.mp listed
    exact ⟨function, later.mem_publicFunctions.mpr
      ⟨holder, adds.mem.mpr (Or.inl held), declared, isPublic⟩, viewed⟩
  methods := by
    intro className
    obtain ⟨earlier, behind, visible, offered, theirs, apart⟩ := covers.methods className
    refine ⟨earlier, behind ++ added.flatMap fun program => program.methods className, visible, ?_,
      theirs, fun method among => ?_⟩
    · rw [adds.classMethods knows later, offered, List.append_assoc]
    · rcases List.mem_append.mp among with old | new
      · exact apart method old
      · obtain ⟨holder, new, declared⟩ := List.mem_flatMap.mp new
        have there : holder ∈ after.code.programs := adds.mem.mpr (Or.inr new)
        have named := later.belongs holder there method (List.mem_filter.mp declared).1
        rw [named]
        refine ⟨adds.apart later loaded new, fun other old => ?_⟩
        have listed : other ∈ engine.code.programs.classMethods className := by
          rw [offered]
          exact List.mem_append_left _ (List.mem_append_left _ old)
        obtain ⟨owner, held, among, _⟩ := Programs.mem_classMethods listed
        rw [knows.belongs owner held other among]
        exact adds.apart later held new

end

section

variable {engine after : Engine} {known more : List Function} {program : Program}

theorem Engine.Knows.covers_compiled (knows : engine.Knows known) (later : after.Knows more)
    (adds : engine.Adds after [program]) {id : ProgramId} {name source : String}
    {ids behind : Identities} {published : PublicIndex Function}
    (compiled : Compiler.compile engine.compileEnv id name source ids =
      (.ok program, behind, published)) (function : Function)
    (declared : function ∈ program.functions) :
    ∃ names, function.Typed names ∧ after.code.Covers program names := by
  obtain ⟨visible, typed, known⟩ := Compiler.compile_typed compiled function declared
  have there : program ∈ after.code.programs :=
    adds.mem.mpr (Or.inr (List.mem_singleton_self program))
  refine ⟨_, typed, adds.grows, fun callable own => ?_, fun callable «public» => ?_,
    fun className => ?_⟩
  · obtain ⟨signature, listed, rfl⟩ := List.mem_map.mp own
    obtain ⟨listed, free⟩ := List.mem_filter.mp listed
    obtain ⟨other, among, rfl⟩ := List.mem_map.mp listed
    refine ⟨other, List.mem_filter.mpr ⟨among, ?_⟩, rfl⟩
    rw [of_decide_eq_true free]
    rfl
  · obtain ⟨other, seen, rfl⟩ := List.mem_map.mp «public»
    refine ⟨other, later.mem_publicFunctions.mpr ?_, rfl⟩
    rcases known other seen with old | ⟨new, isPublic⟩
    · obtain ⟨holder, held, among, isPublic⟩ := knows.mem_publicFunctions.mp old
      exact ⟨holder, adds.mem.mpr (Or.inl held), among, isPublic⟩
    · exact ⟨program, there, new, isPublic⟩
  · refine ⟨engine.code.programs.classMethods className, [], Compiler.callScope_methods .., ?_, ?_,
      List.forall_mem_nil _⟩
    · rw [adds.classMethods knows later, List.flatMap_singleton, List.append_nil]
    · intro method among
      obtain ⟨holder, held, among, _⟩ := Programs.mem_classMethods among
      rw [knows.belongs holder held method among]
      exact (adds.apart later held (List.mem_singleton_self program)).symm

end

section

variable {engine after : Engine} {known more : List Function} {added : List Program}
  {world : World} {function : Function} {call : CallSite × List Expr}

theorem Code.Linked.means_callee (linked : engine.code.Linked) (knows : engine.Knows known)
    (owns : engine.code.Owns function) (among : call ∈ function.calls) :
    engine.code.Means call call.1.callee := by
  obtain ⟨program, loaded, _, declared⟩ := knows.program_of_owns owns
  obtain ⟨names, typed, covers⟩ := linked.compiled program loaded function declared
  obtain ⟨site, operands⟩ := call
  obtain ⟨type, resolves⟩ := typed.body.resolves among
  cases dispatches : site.hasReceiver with
  | false => exact (Code.means_free dispatches).mpr rfl
  | true =>
      cases resolves with
      | free dispatch => simp [CallSite.hasReceiver, dispatch] at dispatches
      | method _ _ resolved same =>
          obtain ⟨decl, _, compiled, rfl, offered, fits, _⟩ := covers.compiled resolved
          exact (Code.means_method dispatches).mpr ⟨compiled, same, ⟨decl.name, offered⟩, fits,
            compiled, knows.owns_classMethod offered, same, DataType.specializes_refl _⟩

theorem Code.Linked.extend (linked : engine.code.Linked) (knows : engine.Knows known)
    (later : after.Knows more) (adds : engine.Adds after added)
    (compiled : ∀ program ∈ added, ∀ function ∈ program.functions,
      ∃ names, function.Typed names ∧ after.code.Covers program names)
    (sites : ∀ program ∈ added, (places (program.functions.flatMap Function.calls)).Nodup) :
    after.code.Linked where
  compiled := by
    intro program loaded function declared
    rcases adds.mem.mp loaded with old | new
    · obtain ⟨names, typed, covers⟩ := linked.compiled program old function declared
      exact ⟨names, typed, adds.covers knows later old covers⟩
    · exact compiled program new function declared
  sites := by
    intro program loaded
    rcases adds.mem.mp loaded with old | new
    · exact linked.sites program old
    · exact sites program new

theorem Code.Remembers.extend (remembers : engine.code.Remembers world)
    (knows : engine.Knows known) (later : after.Knows more) (adds : engine.Adds after added)
    (linked : after.code.Linked) : after.code.Remembers world where
  loaded := by
    intro entry kept
    obtain ⟨program, loaded, named⟩ := remembers.loaded entry kept
    exact ⟨program, adds.mem.mpr (Or.inl loaded), named⟩
  means := by
    intro function owns call among
    obtain ⟨program, loaded, named, declared⟩ := later.program_of_owns owns
    rcases adds.mem.mp loaded with old | new
    · exact adds.means knows later
        (remembers.means function (knows.consistent.own program old function declared) call among)
    · have missing : world.callees.lookup ⟨function.program, call.1.offset⟩ = none := by
        refine List.lookup_eq_none_iff.mpr fun entry kept => ?_
        obtain ⟨other, held, same⟩ := remembers.loaded entry kept
        have apart := adds.apart later held new
        rw [same, named] at apart
        exact bne_iff_ne.mpr fun equal => apart (congrArg SiteId.program equal)
      rw [World.callee, missing]
      exact linked.means_callee later owns among

end

end ScriptEngine
