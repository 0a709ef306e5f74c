import ScriptEngine.Proofs.CallSites
import ScriptEngine.Proofs.UniqueSignatures
/-! Free calls of a unit. A body is compiled while some public functions of the unit are in the index
and others are not, and all of them stand among the unit's own functions as well. A search looks at
those first, so it finds the same before and behind the end of the compilation. -/

namespace ScriptEngine

namespace Overload

variable {α : Type}

section

variable {score : α → Score} {first second own again rest : List α} {function : α}
  {distance : Nat}

theorem nearest_append_iff : Nearest score (first ++ second) function distance ↔
    (Nearest score first function distance ∧
      ∀ other ∈ second, ∀ cost, score other = .distance cost → distance ≤ cost) ∨
    (Nearest score second function distance ∧
      ∀ other ∈ first, ∀ cost, score other = .distance cost → distance < cost) := by
  constructor
  · rintro ⟨fits, before, after, split, early, late⟩
    rcases List.append_eq_append_iff.mp split with ⟨between, rfl, parts⟩ | ⟨between, rfl, parts⟩
    · refine Or.inr ⟨⟨fits, between, after, parts, ?_, late⟩, ?_⟩
      · exact fun other among => early other (List.mem_append_right _ among)
      · exact fun other among => early other (List.mem_append_left _ among)
    · cases between with
      | nil =>
          rw [List.nil_append] at parts
          rw [List.append_nil]
          exact Or.inr ⟨⟨fits, [], after, parts.symm, nofun, late⟩, early⟩
      | cons head tail =>
          obtain ⟨rfl, rfl⟩ := List.cons.inj parts
          refine Or.inl ⟨⟨fits, before, tail, rfl, early, ?_⟩, ?_⟩
          · exact fun other among => late other (List.mem_append_left _ among)
          · exact fun other among => late other (List.mem_append_right _ among)
  · rintro (⟨⟨fits, before, after, rfl, early, late⟩, behind⟩ |
      ⟨⟨fits, before, after, rfl, early, late⟩, farther⟩)
    · refine ⟨fits, before, after ++ second, by simp, early, fun other among => ?_⟩
      exact (List.mem_append.mp among).elim (late other) (behind other)
    · refine ⟨fits, first ++ before, after, by simp, fun other among => ?_, late⟩
      exact (List.mem_append.mp among).elim (farther other) (early other)

theorem nearest_again_iff (known : ∀ other ∈ again, other ∈ own) :
    Nearest score (own ++ (again ++ rest)) function distance ↔
      Nearest score (own ++ rest) function distance := by
  rw [@nearest_append_iff _ _ own (again ++ rest), @nearest_append_iff _ _ own rest]
  constructor
  · rintro (⟨nearest, behind⟩ | ⟨nearest, farther⟩)
    · exact Or.inl ⟨nearest, fun other among => behind other (List.mem_append_right _ among)⟩
    · rcases nearest_append_iff.mp nearest with ⟨nearest, _⟩ | ⟨nearest, _⟩
      · -- What is farther than the nearest is not the nearest itself.
        exact absurd (farther function (known function nearest.mem) distance nearest.fits)
          (Nat.lt_irrefl _)
      · exact Or.inr ⟨nearest, farther⟩
  · rintro (⟨nearest, behind⟩ | ⟨nearest, farther⟩)
    · refine Or.inl ⟨nearest, fun other among cost scored => ?_⟩
      rcases List.mem_append.mp among with repeated | new
      · exact nearest.le (known other repeated) scored
      · exact behind other new cost scored
    · refine Or.inr ⟨nearest_append_iff.mpr (Or.inr ⟨nearest, ?_⟩), farther⟩
      exact fun other among => farther other (known other among)

end

variable {view : α → Callable} {hierarchy : Hierarchy} {name : String} {args : List DataType}
  {own again rest : List α} {function : α}

theorem search_again (known : ∀ other ∈ again, other ∈ own) :
    search view hierarchy name args (own ++ (again ++ rest)) = .ok function ↔
      search view hierarchy name args (own ++ rest) = .ok function := by
  have kept : ∀ other ∈ named view name again, other ∈ named view name own := by
    intro other among
    obtain ⟨listed, called⟩ := List.mem_filter.mp among
    exact List.mem_filter.mpr ⟨known other listed, called⟩
  simp only [search_eq_ok_iff]
  unfold named at kept ⊢
  simp only [List.filter_append, nearest_again_iff kept]

theorem search_alike {withPublic : Bool} {before behind : List α}
    (early : ∀ other ∈ before, other ∈ own) (late : ∀ other ∈ behind, other ∈ own)
    (found : search view hierarchy name args
      (own ++ if withPublic then before ++ rest else []) = .ok function) :
    search view hierarchy name args
      (own ++ if withPublic then behind ++ rest else []) = .ok function := by
  cases withPublic with
  | false => exact found
  | true => exact (search_again late).mpr ((search_again early).mp found)

end Overload

theorem Code.resolveCall_found {code : Code} {id : ProgramId} {program : Program}
    {name : String} {args : List DataType} {function : Function}
    (loaded : code.programs.get? id = some program)
    (found : Overload.search Function.callable code.classes.derives name args
      (program.free ++ if code.resolvePublic ≠ 0 then code.publicFunctions else []) =
        .ok function) :
    code.resolveCall id none name args = (.ok function, some function.id) := by
  unfold resolveCall
  simp only [loaded]
  have resolved : (Overload.resolve Function.callable code.classes.derives
      (code.resolvePublic ≠ 0) none name args program.free code.publicFunctions).1 =
        .ok function := by
    refine Overload.resolve_unkept.trans ?_
    simpa using found
  exact Prod.ext resolved (Overload.resolve_kept (Prod.ext resolved rfl))

theorem BodyParser.dispatchOn_ne_free (receiver : Expr) (className : String) :
    dispatchOn receiver className ≠ .free := by
  unfold dispatchOn
  split <;> exact nofun

namespace Compiler

variable {env : CompileEnv}

theorem functions_publish {index : PublicIndex Function} {function : Function}
    (fresh : function.id ∉ index.listed.map Prod.fst) :
    (publish index function).functions some =
      [function].filter Function.isPublic ++ index.functions some := by
  rw [PublicIndex.functions_eq, PublicIndex.functions_eq, listed_publish fresh,
    List.filterMap_append, List.filterMap_map]
  congr 1
  exact List.filterMap_some ..

theorem compileBodies_visible {program : ProgramId} {declared : List Signature}
    {stream : TokenStream} {signatures : List Signature} :
    ∀ {announced : List FunctionId} {index published : PublicIndex Function}
      {functions : List Function},
      compileBodies env program declared stream announced index signatures =
        (.ok functions, published) →
      (signatures.map Signature.id).Nodup →
      (∀ signature ∈ signatures, signature.id ∉ index.listed.map Prod.fst) →
      ∀ function ∈ functions, ∃ earlier, earlier <+: functions ∧
        function.Typed (callScope env declared
          ((earlier.filter Function.isPublic).reverse ++ index.functions some)) := by
  induction signatures with
  | nil =>
      intro announced index published functions compiled _ _ function among
      cases compiled
      cases among
  | cons signature rest ih =>
      intro announced index published functions compiled distinct fresh function among
      obtain ⟨first, announced, more, leading, others, rfl⟩ := compileBodies_cons compiled
      rcases List.mem_cons.mp among with rfl | among
      · exact ⟨[], List.nil_prefix, compileBody_typed leading⟩
      · have id : first.id = signature.id := congrArg Signature.id (compileBody_fields leading).1
        obtain ⟨once, distinct⟩ := List.nodup_cons.mp distinct
        have unknown : first.id ∉ index.listed.map Prod.fst :=
          id ▸ fresh signature (List.mem_cons_self ..)
        have afresh : ∀ other ∈ rest, other.id ∉ (publish index first).listed.map Prod.fst := by
          intro other later
          refine fresh_publish unknown (fun same => once ?_)
            (fresh other (List.mem_cons_of_mem _ later))
          exact (same.trans id) ▸ List.mem_map_of_mem later
        obtain ⟨earlier, leads, typed⟩ := ih others distinct afresh function among
        refine ⟨first :: earlier, (List.prefix_cons_inj first).mpr leads, ?_⟩
        have single : ([first].filter Function.isPublic).reverse =
            [first].filter Function.isPublic := by
          rw [List.filter_singleton]
          cases first.isPublic <;> rfl
        rw [functions_publish unknown, ← List.append_assoc] at typed
        rwa [← List.singleton_append (l := earlier), List.filter_append, List.reverse_append, single]

theorem callScope_own (env : CompileEnv) (program : Program) (published : List Function) :
    (callScope env (program.functions.map Function.signature) published).own =
      program.free.map Function.callable := by
  have free : ∀ function ∈ program.functions,
      ((fun signature : Signature => decide (signature.classBlock = none)) ∘ Function.signature)
        function = function.signature.classBlock.isNone := by
    intro function _
    cases block : function.signature.classBlock <;> simp [block]
  simp only [callScope, Program.free, List.filter_map, List.map_map, List.filter_congr free]
  rfl

theorem callScope_found {program : Program} {published : List Function} {name : String}
    {args : List DataType} {callee : Callable}
    (found : (callScope env (program.functions.map Function.signature) published).resolveCall name
      args = .ok callee) :
    ∃ function : Function, function.callable = callee ∧
      Overload.search Function.callable env.classes.derives name args
        (program.free ++ if env.withPublic then published else []) = .ok function := by
  refine Overload.search_map ?_
  rw [List.map_append, apply_ite (List.map Function.callable), List.map_nil,
    ← callScope_own env program published]
  exact Overload.resolve_unkept.symm.trans found

theorem compile_functions {id : ProgramId} {name source : String} {ids after : Identities}
    {program : Program} {published : PublicIndex Function}
    (compiled : compile env id name source ids = (.ok program, after, published))
    (below : ∀ entry ∈ env.published.listed, entry.1.number ≤ ids.lastFunction) :
    published.functions some =
      (program.functions.filter Function.isPublic).reverse ++ env.published.functions some := by
  rw [PublicIndex.functions_eq, PublicIndex.functions_eq, compile_published compiled below,
    List.filterMap_append, ← List.map_reverse, List.filterMap_map]
  congr 1
  exact List.filterMap_some ..

theorem compile_free {id : ProgramId} {name source : String} {ids after : Identities}
    {program : Program} {published : PublicIndex Function}
    (compiled : compile env id name source ids = (.ok program, after, published))
    {function : Function} (declared : function ∈ program.functions)
    (isPublic : function.isPublic = true) : function ∈ program.free :=
  List.mem_filter.mpr ⟨declared, by simp [compile_unenclosed compiled function declared isPublic]⟩

end Compiler

/-- Wherever a body stands in its unit, the function that the compiler found for a free call in it is
the one that a search finds once the unit is loaded, with nothing kept from before. -/
theorem free_calls_resolve_alike {name source : String} {id : ProgramId} {after : Engine}
    (operations : List Operation)
    (compiled : (Host.after operations).engine.compile name source = (.ok id, after)) :
    ∃ program, after.code.programs.get? id = some program ∧
      ∀ function ∈ program.functions, ∀ site operands, (site, operands) ∈ function.calls →
        site.dispatch = .free → ∃ callee, callee.id = site.callee ∧
          after.code.resolveCall id none site.name (operands.map Expr.type) =
            (.ok callee, some site.callee) := by
  obtain ⟨known, knows⟩ := Host.after_knows operations
  generalize (Host.after operations).engine = engine at compiled knows
  obtain ⟨program, loaded⟩ : ∃ program, after.code.programs.get? id = some program := by
    have loads := engine.compile_loaded name source
    have later := knows.compile name source
    rw [compiled] at loads later
    obtain ⟨program, rfl, loads⟩ := loads
    obtain ⟨_, later⟩ := later
    refine ⟨program, Programs.get?_of_mem later.programs ?_⟩
    change program ∈ after.code.programs.loaded
    rw [loads]
    exact List.mem_append_right _ (List.mem_singleton_self program)
  refine ⟨program, loaded, fun function declared site operands placed free => ?_⟩
  obtain ⟨ids, published, made, rfl, _⟩ := knows.compiled compiled loaded
  obtain ⟨_, _, _, bodies⟩ := Compiler.compile_parts made
  obtain ⟨distinct, fresh⟩ := Compiler.signatures_fresh made knows.published_below
  obtain ⟨earlier, leads, typed⟩ :=
    Compiler.compileBodies_visible bodies distinct fresh function declared
  obtain ⟨_, resolves⟩ := typed.body.resolves placed
  cases resolves with
  | method _ dispatches =>
      exact absurd (dispatches.symm.trans free) (BodyParser.dispatchOn_ne_free _ _)
  | free _ resolved same =>
      obtain ⟨callee, rfl, found⟩ := Compiler.callScope_found resolved
      have own : ∀ part, part ⊆ program.functions →
          ∀ other ∈ (part.filter Function.isPublic).reverse, other ∈ program.free := by
        intro part within other listed
        obtain ⟨declared, isPublic⟩ := List.mem_filter.mp (List.mem_reverse.mp listed)
        exact Compiler.compile_free made (within declared) isPublic
      have again := Overload.search_alike (own _ leads.subset)
        (own _ (List.Subset.refl program.functions)) found
      rw [← Compiler.compile_functions made knows.published_below] at again
      refine ⟨callee, same, ?_⟩
      rw [← same]
      refine Code.resolveCall_found loaded ?_
      simpa [Engine.compileEnv, Code.publicFunctions] using again

def equallyNearUnit : List Operation × String :=
  ([.compile "first" "public int pick(long a, float b) { return 1; }"],
    "int early() { return pick(1, 1); }
      public int pick(float a, long b) { return 2; }
      int late() { return pick(1, 1); }")

def Host.loadsCallers (host : Host) (source : String) (first second : String) : Bool :=
  match host.engine.compile "second" source with
  | (.ok id, after) => (after.code.programs.get? id).any fun program =>
      [first, second].all fun name => program.functions.any fun function =>
        decide (function.name = name) && function.calls.any fun call =>
          decide (call.1.dispatch = .free)
  | (.error _, _) => false

theorem free_calls_resolve_alike_of_equallyNear :
    ∃ (id : ProgramId) (after : Engine) (program : Program),
      (Host.after equallyNearUnit.1).engine.compile "second" equallyNearUnit.2 = (.ok id, after) ∧
      after.code.programs.get? id = some program ∧
      ∀ name ∈ ["early", "late"], ∃ function ∈ program.functions, function.name = name ∧
        ∃ site operands callee, (site, operands) ∈ function.calls ∧ callee.id = site.callee ∧
          after.code.resolveCall id none site.name (operands.map Expr.type) =
            (.ok callee, some site.callee) := by
  have checked : (Host.after equallyNearUnit.1).loadsCallers equallyNearUnit.2 "early" "late" =
      true := by
    decide +kernel
  unfold Host.loadsCallers at checked
  split at checked
  · rename_i id after compiled
    obtain ⟨program, loaded, checked⟩ := (Option.any_eq_true ..).mp checked
    obtain ⟨_, found, alike⟩ := free_calls_resolve_alike equallyNearUnit.1 compiled
    obtain rfl := Option.some.inj (found.symm.trans loaded)
    refine ⟨id, after, _, compiled, loaded, fun name among => ?_⟩
    obtain ⟨function, declared, checked⟩ :=
      List.any_eq_true.mp (List.all_eq_true.mp checked name among)
    obtain ⟨named, checked⟩ := Bool.and_eq_true_iff.mp checked
    obtain ⟨⟨site, operands⟩, placed, free⟩ := List.any_eq_true.mp checked
    obtain ⟨callee, same, resolved⟩ :=
      alike function declared site operands placed (of_decide_eq_true free)
    exact ⟨function, declared, of_decide_eq_true named, site, operands, callee, placed, same,
      resolved⟩
  · cases checked

end ScriptEngine
