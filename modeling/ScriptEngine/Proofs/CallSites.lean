import ScriptEngine.Proofs.Ancestry
import ScriptEngine.Proofs.Bodies
import ScriptEngine.Proofs.Observing
import ScriptEngine.Proofs.Searching
import ScriptEngine.Proofs.Transparency
/-! Call sites that keep what they found. What a site keeps changes nothing as long as a search would
find it again in every class that has it. Searches while scripts run see to that, so all depends on
what the compiler found, which looked at the methods of its own unit first. -/

namespace ScriptEngine

namespace Overload

variable {α : Type} {view : α → Callable} {hierarchy : Hierarchy} {name : String}
  {args : List DataType} {function : α} {id : FunctionId}

def Settled (view : α → Callable) (hierarchy : Hierarchy) (name : String) (args : List DataType)
    (id : FunctionId) (candidates : List α) : Prop :=
  ∀ function ∈ candidates, (view function).id = id →
    search view hierarchy name args candidates = .ok function

theorem resolve_settled {candidates : List α}
    (settled : Settled view hierarchy name args id candidates) :
    (resolve view hierarchy false (some id) name args candidates []).1 =
      search view hierarchy name args candidates := by
  unfold resolve
  simp only [List.append_nil, Option.bind_some, Bool.false_eq_true, if_false]
  split
  · rename_i function known
    have same : (view function).id = id := by simpa using List.find?_some known
    exact (settled function (List.mem_of_find?_eq_some known) same).symm
  · split <;> rename_i searched <;> exact searched.symm

theorem resolve_unkept {withPublic : Bool} {own published : List α} :
    (resolve view hierarchy withPublic none name args own published).1 =
      search view hierarchy name args (own ++ if withPublic then published else []) := by
  unfold resolve
  simp only [Option.bind_none]
  split <;> rename_i searched <;> exact searched.symm

theorem resolve_unkept_own {candidates : List α} :
    (resolve view hierarchy false none name args candidates []).1 =
      search view hierarchy name args candidates := by
  rw [resolve_unkept, if_neg Bool.false_ne_true, List.append_nil]

theorem resolveAlong_settled {offered : List (List α)} :
    ∀ {first : Option CompileCause},
      (∀ candidates ∈ offered, Settled view hierarchy name args id candidates) →
        (resolveAlong view hierarchy (some id) name args first offered).1 =
          (resolveAlong view hierarchy none name args first offered).1 := by
  induction offered with
  | nil => exact fun _ => rfl
  | cons candidates rest ih =>
      intro first settled
      have here := resolve_settled (settled candidates (List.mem_cons_self ..))
      have there := @resolve_unkept_own α view hierarchy name args candidates
      have further := @ih
      simp only [resolveAlong]
      generalize resolve view hierarchy false (some id) name args candidates [] = kept at here ⊢
      generalize resolve view hierarchy false none name args candidates [] = unkept at there ⊢
      obtain ⟨result, _⟩ := kept
      obtain ⟨same, _⟩ := unkept
      dsimp only at here there
      subst here there
      cases search view hierarchy name args candidates with
      | ok function => rfl
      | error cause =>
          exact further fun other among => settled other (List.mem_cons_of_mem _ among)

theorem resolveAlong_searched {offered : List (List α)} :
    ∀ {first : Option CompileCause},
      (resolveAlong view hierarchy none name args first offered).1 = .ok function →
        ∃ candidates ∈ offered, search view hierarchy name args candidates = .ok function := by
  induction offered with
  | nil =>
      intro first found
      cases found
  | cons candidates rest ih =>
      intro first found
      have here := @resolve_unkept_own α view hierarchy name args candidates
      simp only [resolveAlong] at found
      generalize resolve view hierarchy false none name args candidates [] = unkept at here found
      obtain ⟨result, _⟩ := unkept
      dsimp only at here
      subst here
      cases searched : search view hierarchy name args candidates with
      | ok other =>
          rw [searched] at found
          exact ⟨candidates, List.mem_cons_self .., searched.trans found⟩
      | error cause =>
          rw [searched] at found
          obtain ⟨others, among, done⟩ := ih found
          exact ⟨others, List.mem_cons_of_mem _ among, done⟩

theorem resolveAlong_failed {kept found? : Option FunctionId} {cause : CompileCause}
    {offered : List (List α)} : ∀ {first : Option CompileCause},
      resolveAlong view hierarchy kept name args first offered = (.error cause, found?) →
        found? = kept := by
  induction offered with
  | nil =>
      intro first failed
      cases failed
      rfl
  | cons candidates rest ih =>
      intro first failed
      rw [resolveAlong] at failed
      split at failed
      · cases failed
      · exact ih failed

end Overload

namespace Code

def Identifies (code : Code) : Prop :=
  ∀ first second, ∀ function ∈ code.programs.classMethods first,
    ∀ other ∈ code.programs.classMethods second, function.id = other.id → function = other

variable {code : Code} {name : String} {args : List DataType} {id : FunctionId}

theorem classBlock_of_mem {programs : Programs} {className : String} {function : Function}
    (among : function ∈ programs.classMethods className) :
    function.signature.classBlock = some className := by
  obtain ⟨_, _, _, enclosed⟩ := Programs.mem_classMethods among
  exact enclosed

def Settled (code : Code) (name : String) (args : List DataType) (id : FunctionId) : Prop :=
  ∀ className, Overload.Settled Function.callable code.classes.derives name args id
    (code.programs.classMethods className)

theorem Settled.resolveMethod (settled : code.Settled name args id) (className : String) :
    (code.resolveMethod className (some id) name args).1 =
      (code.resolveMethod className none name args).1 := by
  refine Overload.resolveAlong_settled fun candidates offered => ?_
  obtain ⟨decl, _, rfl⟩ := List.mem_map.mp offered
  exact settled decl.name

theorem resolveMethod_searched {className : String} {function : Function}
    (found : (code.resolveMethod className none name args).1 = .ok function) :
    ∃ holder, function ∈ code.programs.classMethods holder ∧
      Overload.search Function.callable code.classes.derives name args
        (code.programs.classMethods holder) = .ok function := by
  obtain ⟨candidates, offered, searched⟩ := Overload.resolveAlong_searched found
  obtain ⟨decl, _, rfl⟩ := List.mem_map.mp offered
  exact ⟨decl.name, Overload.search_mem searched, searched⟩

theorem settled_of_search (identifies : code.Identifies) {holder : String} {function : Function}
    (among : function ∈ code.programs.classMethods holder)
    (searched : Overload.search Function.callable code.classes.derives name args
      (code.programs.classMethods holder) = .ok function) : code.Settled name args function.id := by
  intro className other also same
  obtain rfl := identifies className holder other also function among same
  have block := classBlock_of_mem also
  rw [classBlock_of_mem among] at block
  cases block
  exact searched

theorem Settled.kept (identifies : code.Identifies) (settled : code.Settled name args id)
    (className : String) : ∃ next,
      (code.resolveMethod className (some id) name args).2 = some next ∧
        code.Settled name args next := by
  have same := settled.resolveMethod className
  cases resolved : code.resolveMethod className (some id) name args with
  | mk result found? =>
      rw [resolved] at same
      cases result with
      | error cause =>
          have unchanged := Overload.resolveAlong_failed resolved
          exact ⟨id, unchanged, settled⟩
      | ok function =>
          obtain ⟨holder, among, searched⟩ := resolveMethod_searched same.symm
          exact ⟨function.id, Overload.resolveAlong_kept resolved,
            settled_of_search identifies among searched⟩

end Code

theorem Code.resolveMethod_kept {code : Code} (identifies : code.Identifies) {holder : String}
    {function : Function} (contained : code.classes.contains holder = true)
    (among : function ∈ code.programs.classMethods holder) (name : String) (args : List DataType) :
    (code.resolveMethod holder (some function.id) name args).1 = .ok function := by
  obtain ⟨decl, rest, chained, rfl⟩ := ClassTable.chain_of_contains contained
  have known : (code.programs.classMethods decl.name).find?
      (fun other => (Function.callable other).id = function.id) = some function := by
    cases found : (code.programs.classMethods decl.name).find?
        (fun other => (Function.callable other).id = function.id) with
    | none =>
        have different := List.find?_eq_none.mp found function among
        exact absurd (decide_eq_true (rfl : function.id = function.id)) different
    | some other =>
        have found? := List.find?_some found
        have same : other.id = function.id := of_decide_eq_true found?
        rw [identifies _ _ other (List.mem_of_find?_eq_some found) function among same]
  unfold resolveMethod
  rw [chained, List.map_cons, Overload.resolveAlong, Overload.resolve]
  simp only [List.append_nil, Option.bind_some, known]

theorem Evaluation.callee_congr {code : Code} {frame : Frame} {kept : Option FunctionId}
    {resolved other : Except CompileCause Function × Option FunctionId}
    (same : resolved.1 = other.1)
    (keeps : ∀ function, other.1 = .ok function → resolved.2 = other.2) :
    Evaluation.callee code frame kept resolved = Evaluation.callee code frame kept other := by
  obtain ⟨result, found⟩ := resolved
  obtain ⟨_, also⟩ := other
  dsimp only at same keeps
  subst same
  cases result with
  | ok function => rw [keeps function rfl]
  | error cause => rfl

/-- The world behind an execution of a method call on a receiver of a class: the site keeps what was
found. -/
def World.executed (code : Code) (program : ProgramId) (site : CallSite) (types : List DataType)
    (world : World) (className : String) : World :=
  let kept := world.callee ⟨program, site.offset⟩ site.callee
  world.keepCallee ⟨program, site.offset⟩
    (code.resolveMethod className (some kept) site.name types).2

theorem World.executed_settled {code : Code} {program : ProgramId} {site : CallSite}
    {types : List DataType} (identifies : code.Identifies) (seen : List String) : ∀ {world : World},
      code.Settled site.name types (world.callee ⟨program, site.offset⟩ site.callee) →
        code.Settled site.name types
          ((seen.foldl (World.executed code program site types) world).callee
            ⟨program, site.offset⟩ site.callee) := by
  induction seen with
  | nil => exact id
  | cons className rest ih =>
      intro world settled
      obtain ⟨next, kept, settled⟩ := settled.kept identifies className
      refine ih ?_
      rw [executed, kept, World.callee_keepCallee, if_pos rfl]
      exact settled

/-- No method loaded before the unit `program` is as near to the arguments of a site of the unit as
the method of the unit that the compiler found for it, in the class of that method. -/
def Program.Untied (program : Program) (loaded : Programs) (hierarchy : Hierarchy)
    (site : CallSite) (types : List DataType) : Prop :=
  ∀ callee ∈ program.functions, callee.id = site.callee → ∀ className,
    callee.signature.classBlock = some className → ∀ other ∈ loaded.classMethods className,
      other.name = site.name →
        Score.of hierarchy other.params.types types ≠ Score.of hierarchy callee.params.types types

instance (program : Program) (loaded : Programs) (hierarchy : Hierarchy) (site : CallSite)
    (types : List DataType) : Decidable (program.Untied loaded hierarchy site types) :=
  decidable_of_iff (∀ callee ∈ program.functions, callee.id = site.callee →
    ∀ className ∈ callee.signature.classBlock, ∀ other ∈ loaded.classMethods className,
      other.name = site.name →
        Score.of hierarchy other.params.types types ≠ Score.of hierarchy callee.params.types types)
    .rfl

theorem Compiler.callScope_methods (env : CompileEnv) (program : Program)
    (published : List Function) (className : String) :
    (callScope env (program.functions.map Function.signature) published).methods className =
      (program.methods className ++ env.programs.classMethods className).map Function.callable := by
  simp only [callScope, List.map_append, Program.methods, List.filter_map, List.map_map]
  rfl

theorem Engine.Knows.compiled {engine after : Engine} {known : List Function} {id : ProgramId}
    {name source : String} {program : Program} (knows : engine.Knows known)
    (compiled : engine.compile name source = (.ok id, after))
    (loaded : after.code.programs.get? id = some program) :
    ∃ ids published,
      Compiler.compile engine.compileEnv id name source engine.ids.nextProgram.2 =
        (.ok program, ids, published) ∧
      after = { engine with
        ids
        code := { engine.code with
          programs := engine.code.programs.insert program
          published } } ∧
      after.Knows (known ++ program.functions) := by
  unfold Engine.compile at compiled
  dsimp only at compiled
  cases done : Compiler.compile engine.compileEnv engine.ids.nextProgram.1 name source
    engine.ids.nextProgram.2 with
  | mk result behind =>
      obtain ⟨ids, published⟩ := behind
      rw [done] at compiled
      cases result with
      | error error => cases compiled
      | ok made =>
          cases compiled
          have later := knows.load done
          have named : made.id = engine.ids.nextProgram.1 := (Compiler.compile_made done).named
          have same : program.id = made.id := (Programs.mem_of_get? loaded).2.trans named.symm
          obtain rfl := List.inj_on_of_nodup_map later.programs (Programs.mem_of_get? loaded).1
            (List.mem_append_right _ (List.mem_singleton_self made)) same
          exact ⟨ids, published, done, rfl, later⟩

theorem Engine.Knows.identifies {engine : Engine} {known : List Function}
    (knows : engine.Knows known) : engine.code.Identifies := by
  intro first second function among other also same
  obtain ⟨_, loaded, declared, _⟩ := Programs.mem_classMethods among
  obtain ⟨_, held, defined, _⟩ := Programs.mem_classMethods also
  exact knows.same (knows.loaded _ loaded function declared).1 (knows.loaded _ held other defined).1
    same

section

variable {engine after : Engine} {known : List Function} {id : ProgramId} {name source : String}
  {program : Program} {function : Function} {site : CallSite} {operands : List Expr}

theorem Engine.Knows.site_searched (knows : engine.Knows known)
    (compiled : engine.compile name source = (.ok id, after))
    (loaded : after.code.programs.get? id = some program) (declared : function ∈ program.functions)
    (placed : (site, operands) ∈ function.calls) (dispatches : site.hasReceiver = true) :
    ∃ className callee, engine.code.classes.contains className = true ∧ callee.id = site.callee ∧
      Overload.search Function.callable engine.code.classes.derives site.name
        ((operands.drop 1).map Expr.type)
        (program.methods className ++ engine.code.programs.classMethods className) = .ok callee := by
  obtain ⟨_, _, made, _, _⟩ := knows.compiled compiled loaded
  obtain ⟨published, typed, _⟩ := Compiler.compile_typed made function declared
  obtain ⟨type, resolves⟩ := typed.body.resolves placed
  cases resolves with
  | free free => simp [CallSite.hasReceiver, free] at dispatches
  | method _ _ resolved same =>
      obtain ⟨candidates, offered, searched⟩ := Overload.resolveAlong_searched resolved
      obtain ⟨decl, chained, rfl⟩ := List.mem_map.mp offered
      dsimp only [Function.surroundings] at searched
      rw [Compiler.callScope_methods] at searched
      obtain ⟨callee, rfl, found⟩ := Overload.search_map searched
      exact ⟨decl.name, callee, ClassTable.contains_of_mem_chain chained, same, found⟩

/-- As long as the loaded programs and the classes stay what they were when the unit of a call site
was loaded, no receiver that the site was executed on before changes what it calls on any receiver,
exactly if no method loaded before the unit is as near to the arguments as the method of the unit
that the compiler found. An execution of the site then starts a call of what is found without
anything kept. -/
theorem call_site_history_invisible (operations : List Operation)
    (compiled : (Host.after operations).engine.compile name source = (.ok id, after))
    (loaded : after.code.programs.get? id = some program) (declared : function ∈ program.functions)
    (placed : (site, operands) ∈ function.calls) (dispatches : site.hasReceiver = true)
    (code : Code) (programs : code.programs = after.code.programs)
    (classes : code.classes = after.code.classes) :
    let types := (operands.drop 1).map Expr.type
    let behind (world : World) (seen : List String) : FunctionId :=
      (seen.foldl (World.executed code id site types) world).callee ⟨id, site.offset⟩ site.callee
    let untied := program.Untied (Host.after operations).engine.code.programs code.classes.derives
      site types
    (untied ↔ ∀ world seen className,
      world.callee ⟨id, site.offset⟩ site.callee = site.callee →
        (code.resolveMethod className (some (behind world seen)) site.name types).1 =
          (code.resolveMethod className none site.name types).1) ∧
    (untied → ∀ world seen activation frame machine handle className,
      world.callee ⟨id, site.offset⟩ site.callee = site.callee → activation.code = code →
        activation.program = id →
        machine.world.callee ⟨id, site.offset⟩ site.callee = behind world seen →
        Evaluation.receiver machine.world.heap site frame.temps = .ok (handle, className) →
          Evaluation.callSite activation site (operands.map Expr.type) frame machine =
            Evaluation.enterSite activation site operands.length
              (Evaluation.callee code (frame.child operands.length) none
                (code.resolveMethod className none site.name types))
              (some handle) (Evaluation.arguments types (frame.temps.drop 1)) frame machine) := by
  obtain ⟨known, knows⟩ := Host.after_knows operations
  generalize (Host.after operations).engine = engine at compiled knows ⊢
  obtain ⟨holder, callee, contained, same, searched⟩ :=
    knows.site_searched compiled loaded declared placed dispatches
  obtain ⟨_, _, made, rfl, later⟩ := knows.compiled compiled loaded
  intro types behind untied
  -- A running engine offers the methods in load order, the unit's own last.
  have methods : ∀ className, code.programs.classMethods className =
      engine.code.programs.classMethods className ++ program.methods className := by
    rw [programs]
    exact knows.classMethods_insert program later.programs
  have identifies : code.Identifies := by
    unfold Code.Identifies
    rw [programs]
    exact later.identifies
  rw [show engine.code.classes = code.classes from classes.symm] at contained searched
  have among : callee ∈ code.programs.classMethods holder := by
    rw [methods]
    exact List.mem_append.mpr (List.mem_append.mp (Overload.search_mem searched)).symm
  -- The compiler offered the unit's own first; without a tie the order makes no difference.
  have invisible : untied → ∀ world seen className,
      world.callee ⟨id, site.offset⟩ site.callee = site.callee →
        (code.resolveMethod className (some (behind world seen)) site.name types).1 =
          (code.resolveMethod className none site.name types).1 := by
    intro apart world seen className start
    have settled : code.Settled site.name types site.callee := by
      rw [← same]
      refine Code.settled_of_search identifies among ?_
      rw [methods]
      refine Overload.search_swapped searched fun own other before called => ?_
      exact apart callee (List.mem_filter.mp own).1 same holder (Code.classBlock_of_mem among)
        other before called
    exact (World.executed_settled identifies seen (start.symm ▸ settled)).resolveMethod className
  refine ⟨⟨invisible, ?_⟩, ?_⟩
  -- A tie shows before anything is executed: the empty cell finds the method that was there before.
  · intro invisible other defined identified className block earlier before called equal
    obtain rfl : other = callee := by
      refine later.same (List.mem_append_right _ defined) ?_ (identified.trans same.symm)
      rw [programs] at among
      obtain ⟨_, loaded, declared, _⟩ := Programs.mem_classMethods among
      exact (later.loaded _ loaded callee declared).1
    obtain rfl : className = holder := by
      have held := Code.classBlock_of_mem among
      rw [block] at held
      exact Option.some.inj held
    have found := Code.resolveMethod_kept identifies contained among site.name types
    have forgotten := invisible {} [] className rfl
    rw [same] at found
    obtain ⟨again, also, done⟩ := Code.resolveMethod_searched (forgotten.symm.trans found)
    obtain rfl : className = again := by
      have held := Code.classBlock_of_mem also
      rw [block] at held
      exact Option.some.inj held
    rw [methods] at done
    refine Overload.search_apart done (fun old => ?_) before called equal
    obtain ⟨_, loaded, declared, _⟩ := Programs.mem_classMethods old
    have bound := knows.bounded other (knows.loaded _ loaded other declared).1
    exact absurd bound (Nat.not_le.mpr ((Compiler.compile_made made).number defined).1)
  · intro apart world seen activation frame machine handle className start same here kept receives
    have found := invisible apart world seen className start
    unfold Evaluation.callSite
    simp only [if_pos dispatches, receives, here, kept, same, List.length_map, ← List.map_drop]
    rw [Evaluation.callee_congr found fun function resolved => ?_]
    rw [resolved] at found
    exact (Overload.resolveAlong_kept (Prod.ext_iff.mpr ⟨found, rfl⟩)).trans
      (Overload.resolveAlong_kept (Prod.ext_iff.mpr ⟨resolved, rfl⟩)).symm

end

def nearerUnit : List Operation × String :=
  ([.register { name := "C" }, .register { name := "D", parent := some "C" },
    .compile "first" "class C { int m(long a, float b) { return 1; } }"],
    "class C { int m(int a, long b) { return 2; } }
      class D { int m(long a, float b) { return 4; } }
      int go(C c) { return c.m(1, 1); }")

def Host.loadsUntied (host : Host) (source : String) : Bool :=
  match host.engine.compile "second" source with
  | (.ok id, after) => (after.code.programs.get? id).any fun program =>
      program.functions.any fun function => function.calls.any fun call =>
        call.1.hasReceiver && decide (program.Untied host.engine.code.programs
          after.code.classes.derives call.1 ((call.2.drop 1).map Expr.type))
  | (.error _, _) => false

theorem call_site_history_invisible_of_nearer :
    ∃ (id : ProgramId) (after : Engine) (program : Program) (function : Function) (site : CallSite)
      (operands : List Expr),
      (Host.after nearerUnit.1).engine.compile "second" nearerUnit.2 = (.ok id, after) ∧
      after.code.programs.get? id = some program ∧ function ∈ program.functions ∧
      (site, operands) ∈ function.calls ∧ site.hasReceiver = true ∧
      ∀ (seen : List String) (className : String),
        let types := (operands.drop 1).map Expr.type
        let world := seen.foldl (World.executed after.code id site types) {}
        (after.code.resolveMethod className (some (world.callee ⟨id, site.offset⟩ site.callee))
          site.name types).1 = (after.code.resolveMethod className none site.name types).1 := by
  have checked : (Host.after nearerUnit.1).loadsUntied nearerUnit.2 = true := by
    decide +kernel
  unfold Host.loadsUntied at checked
  split at checked
  · rename_i id after compiled
    obtain ⟨program, loaded, checked⟩ := (Option.any_eq_true ..).mp checked
    obtain ⟨function, declared, checked⟩ := List.any_eq_true.mp checked
    obtain ⟨⟨site, operands⟩, placed, checked⟩ := List.any_eq_true.mp checked
    obtain ⟨dispatches, untied⟩ := Bool.and_eq_true_iff.mp checked
    refine ⟨id, after, program, function, site, operands, compiled, loaded, declared, placed,
      dispatches, fun seen className => ?_⟩
    exact (call_site_history_invisible nearerUnit.1 compiled loaded declared placed dispatches
      after.code rfl rfl).1.mp (of_decide_eq_true untied) {} seen className rfl
  · cases checked

def Engine.answers (engine : Engine) (stack : Stack) (name : String) :
    List Variables → List (Option Int64)
  | [] => []
  | args :: rest =>
      let driven := engine.call stack name args .unlimited
      driven.int? :: driven.engine.answers driven.stack name rest

/-- A unit whose method of `C` is as near to two integers as the one loaded before. -/
def tiedUnit : List Operation :=
  [.register { name := "C" }, .register { name := "D", parent := some "C" },
    .compile "first" "class C { int m(long a, float b) { return 1; } }",
    .compile "second" "class C { int m(float a, long b) { return 2; } }
      class D { int m(int a, int b) { return 4; } }
      int go(C c) { return c.m(1, 1); }",
    .newInstance "C", .newInstance "D"]

/-- One call on one receiver goes to different functions, as another receiver was called before. -/
theorem call_site_history_visible :
    (Host.after tiedUnit).engine.answers ((Host.after tiedUnit).engine.newStack ⟨2⟩).1 "go"
      [[.pointer "" "C" ⟨0, 0⟩], [.pointer "" "D" ⟨1, 0⟩], [.pointer "" "C" ⟨0, 0⟩]] =
        [some 2, some 4, some 1] := by
  decide +kernel

end ScriptEngine
