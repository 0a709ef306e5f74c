import ScriptEngine.Proofs.Loading
import ScriptEngine.Proofs.Typing
/-! The bodies of a compiled program. Each is typed from its parameters on, against the declarations
of its unit, the programs loaded before and the functions that were public when it was read. -/

namespace ScriptEngine

namespace Function

def parameters (function : Function) : Locals :=
  function.params.params.map fun param => (param.name, param.type)

def surroundings (function : Function) (names : CallScope) : Surroundings :=
  ⟨names, function.owner, function.returns⟩

structure Typed (function : Function) (names : CallScope) : Prop where
  body : Stmt.TypedIn (function.surroundings names) function.parameters function.body.stmts
  locals : function.locals =
    (function.parameters ++ Stmt.localsIn function.body.stmts).map Prod.fst

end Function

namespace Compiler

variable {env : CompileEnv}

theorem ownerScope_describes (inside : Surroundings) :
    (ownerScope inside.names.classes { returns := inside.returns } inside.owner).Describes
      inside [] := by
  have empty : Scope.Describes inside [] { returns := inside.returns } :=
    ⟨fun _ among => absurd among List.not_mem_nil, rfl, rfl⟩
  have added : ∀ (scope : Scope) (visible : Visible), scope.Describes inside [] →
      inside.Names [] visible.target visible.type → (scope.add visible).Describes inside [] := by
    intro scope visible describes named
    refine ⟨fun entry among => ?_, (Scope.add_locals visible).trans describes.locals, ?_⟩
    · rcases Scope.mem_visible_add.mp among with rfl | old
      · exact named
      · exact describes.visible entry old
    · unfold Scope.add
      split <;> exact describes.returns
  have members : ∀ (owner : String) (all : Variables), inside.owner = some owner →
      inside.names.classes.members? owner = some all → ∀ (fields : Variables) (scope : Scope),
        (∀ field ∈ fields, field ∈ all) → scope.Describes inside [] →
          (fields.foldl (fun scope member => scope.addMember member.name member.type)
            scope).Describes inside [] := by
    intro owner all owned known fields
    induction fields with
    | nil => exact fun _ _ describes => describes
    | cons field rest ih =>
        intro scope among describes
        exact ih _ (fun other later => among other (List.mem_cons_of_mem _ later))
          (added _ _ describes (.member owned known (among field (List.mem_cons_self ..))))
  cases owned : inside.owner with
  | none => exact empty
  | some owner =>
      have this : Scope.Describes inside []
          (Scope.addReserved { returns := inside.returns } .this (.object owner)) := by
        obtain ⟨visible, locals, returns⟩ := added _ ⟨_, _, .reserved .this⟩ empty (.this owned)
        exact ⟨visible, locals, returns⟩
      have within : ∀ scope : Scope, scope.Describes inside [] →
          (((inside.names.classes.members? owner).getD []).foldl
            (fun scope member => scope.addMember member.name member.type) scope).Describes
              inside [] := by
        intro scope describes
        cases known : inside.names.classes.members? owner with
        | none => exact describes
        | some all => exact members owner all owned known all scope (fun _ among => among) describes
      simp only [ownerScope]
      refine within _ ?_
      cases known : inside.names.classes.parent? owner with
      | none => exact this
      | some parent =>
          obtain ⟨visible, locals, returns⟩ :=
            added _ ⟨_, _, .reserved .super⟩ this (.super owned known)
          exact ⟨visible, locals, returns⟩

theorem addParams_describes {inside : Surroundings} : ∀ {params : List Param} {scope later : Scope}
    {locals : Locals}, scope.Describes inside locals → addParams scope params = .ok later →
      later.Describes inside (locals ++ params.map fun param => (param.name, param.type))
  | [], scope, later, locals, describes, done => by
      cases done
      simpa using describes
  | param :: rest, scope, later, locals, describes, done => by
      rw [addParams] at done
      obtain ⟨⟨id, between⟩, added, done⟩ := ok_of_bind done
      simpa using addParams_describes (describes.addLocal added).2 done

theorem compileBody_typed {program : ProgramId} {declared : List Signature}
    {published : List Function} {stream : TokenStream} {signature : Signature}
    {function : Function}
    (compiled : compileBody env program declared published stream signature = .ok function) :
    function.Typed (callScope env declared published) := by
  unfold compileBody at compiled
  obtain ⟨scope, params, compiled⟩ := ok_of_bind compiled
  obtain ⟨body, read, compiled⟩ := ok_of_bind compiled
  cases compiled
  let inside : Surroundings :=
    ⟨callScope env declared published, signature.header.owner, signature.header.returns⟩
  have described : scope.Describes inside
      (signature.header.params.params.map fun param => (param.name, param.type)) :=
    addParams_describes (ownerScope_describes inside) params
  obtain ⟨typed, after⟩ := BodyParser.block_typed described _ read
  exact ⟨typed, after.locals⟩

theorem mem_publish {index : PublicIndex Function} {function other : Function}
    (seen : other ∈ (publish index function).functions some) :
    (other = function ∧ function.isPublic = true) ∨ other ∈ index.functions some := by
  unfold publish at seen
  split at seen
  · rename_i isPublic
    rw [PublicIndex.functions_eq, PublicIndex.listed_insert, List.filterMap_cons] at seen
    rcases List.mem_cons.mp seen with new | old
    · exact Or.inl ⟨new, isPublic⟩
    · rw [PublicIndex.functions_eq]
      exact Or.inr ((List.filter_sublist.filterMap _).subset old)
  · exact Or.inr seen

theorem compileBodies_typed {program : ProgramId} {declared : List Signature}
    {stream : TokenStream} {signatures : List Signature} :
    ∀ {announced : List FunctionId} {index after : PublicIndex Function}
      {functions : List Function},
      compileBodies env program declared stream announced index signatures =
          (.ok functions, after) →
        ∀ function ∈ functions, ∃ visible, function.Typed (callScope env declared visible) ∧
          ∀ other ∈ visible, other ∈ index.functions some ∨
            (other ∈ functions ∧ other.isPublic = true) := by
  induction signatures with
  | nil =>
      intro announced index after functions compiled function among
      cases compiled
      cases among
  | cons signature rest ih =>
      intro announced index after functions compiled function among
      obtain ⟨first, announced, more, leading, others, rfl⟩ := compileBodies_cons compiled
      rcases List.mem_cons.mp among with rfl | among
      · exact ⟨_, compileBody_typed leading, fun other known => Or.inl known⟩
      · obtain ⟨visible, typed, known⟩ := ih others function among
        refine ⟨visible, typed, fun other seen => ?_⟩
        rcases known other seen with old | new
        · rcases mem_publish old with ⟨rfl, isPublic⟩ | old
          · exact Or.inr ⟨List.mem_cons_self .., isPublic⟩
          · exact Or.inl old
        · exact Or.inr ⟨List.mem_cons_of_mem _ new.1, new.2⟩

/-- Each body of a compiled program is typed against the declarations of the program and the functions
that are public before it or in it. -/
theorem compile_typed {id : ProgramId} {name source : String} {ids after : Identities}
    {program : Program} {published : PublicIndex Function}
    (compiled : compile env id name source ids = (.ok program, after, published)) :
    ∀ function ∈ program.functions, ∃ visible,
      function.Typed (callScope env (program.functions.map Function.signature) visible) ∧
        ∀ other ∈ visible, other ∈ env.published.functions some ∨
          (other ∈ program.functions ∧ other.isPublic = true) := by
  unfold compile at compiled
  dsimp only at compiled
  split at compiled
  · cases compiled
  · split at compiled
    · cases compiled
    · rename_i functions _ bodies
      cases compiled
      rw [(compileBodies_each bodies).1]
      exact compileBodies_typed bodies

end Compiler

mutual

def Expr.calls : Expr → List (CallSite × List Expr)
  | .literal .. | .var .. => []
  | .negate _ _ inner => inner.calls
  | .binary _ _ _ left right => left.calls ++ right.calls
  | .call _ _ site operands => (site, operands) :: Expr.callsIn operands

def Expr.callsIn : List Expr → List (CallSite × List Expr)
  | [] => []
  | first :: rest => first.calls ++ Expr.callsIn rest

end

mutual

def Stmt.calls : Stmt → List (CallSite × List Expr)
  | .block _ stmts => Stmt.callsIn stmts
  | .return _ none | .declare _ _ _ _ none => []
  | .return _ (some value) | .wait _ value | .declare _ _ _ _ (some value) | .assign _ _ value
  | .expr value => value.calls

def Stmt.callsIn : List Stmt → List (CallSite × List Expr)
  | [] => []
  | first :: rest => first.calls ++ Stmt.callsIn rest

end

def Function.calls (function : Function) : List (CallSite × List Expr) :=
  Stmt.callsIn function.body.stmts

section

variable {inside : Surroundings} {locals : Locals} {site : CallSite} {operands : List Expr}

mutual

theorem Expr.Typed.resolves : ∀ {expr : Expr}, expr.Typed inside locals →
    (site, operands) ∈ expr.calls → ∃ type, inside.names.Resolves type site operands
  | .literal .., _, among | .var .., _, among => by
      rw [Expr.calls] at among
      cases among
  | .negate _ _ inner, typed, among => by
      rw [Expr.calls] at among
      exact Expr.Typed.resolves typed.1 among
  | .binary _ _ _ left right, typed, among => by
      rw [Expr.calls] at among
      rcases List.mem_append.mp among with first | second
      · exact Expr.Typed.resolves typed.1 first
      · exact Expr.Typed.resolves typed.2.1 second
  | .call type _ called args, typed, among => by
      rw [Expr.calls] at among
      rcases List.mem_cons.mp among with same | inner
      · cases same
        exact ⟨type, typed.2⟩
      · exact Expr.TypedIn.resolves typed.1 inner

theorem Expr.TypedIn.resolves : ∀ {exprs : List Expr}, Expr.TypedIn inside locals exprs →
    (site, operands) ∈ Expr.callsIn exprs → ∃ type, inside.names.Resolves type site operands
  | [], _, among => by
      rw [Expr.callsIn] at among
      cases among
  | first :: rest, typed, among => by
      rw [Expr.callsIn] at among
      rcases List.mem_append.mp among with first | second
      · exact Expr.Typed.resolves typed.1 first
      · exact Expr.TypedIn.resolves typed.2 second

end

mutual

theorem Stmt.Typed.resolves : ∀ {stmt : Stmt} {locals : Locals}, stmt.Typed inside locals →
    (site, operands) ∈ stmt.calls → ∃ type, inside.names.Resolves type site operands
  | .block _ stmts, _, typed, among => Stmt.TypedIn.resolves typed among
  | .return _ none, _, _, among | .declare _ _ _ _ none, _, _, among => by
      rw [Stmt.calls] at among
      cases among
  | .return _ (some value), _, typed, among | .wait _ value, _, typed, among =>
      Expr.Typed.resolves typed.1 among
  | .declare _ _ _ _ (some value), _, typed, among =>
      Expr.Typed.resolves (typed.2 value rfl).1 among
  | .assign _ _ value, _, ⟨_, _, _, typed⟩, among => Expr.Typed.resolves typed.1 among
  | .expr value, _, typed, among => Expr.Typed.resolves typed among

theorem Stmt.TypedIn.resolves : ∀ {stmts : List Stmt} {locals : Locals},
    Stmt.TypedIn inside locals stmts → (site, operands) ∈ Stmt.callsIn stmts →
      ∃ type, inside.names.Resolves type site operands
  | [], _, _, among => by
      rw [Stmt.callsIn] at among
      cases among
  | first :: rest, _, typed, among => by
      rw [Stmt.callsIn] at among
      rcases List.mem_append.mp among with first | second
      · exact Stmt.Typed.resolves typed.1 first
      · exact Stmt.TypedIn.resolves typed.2 second

end

end

end ScriptEngine
