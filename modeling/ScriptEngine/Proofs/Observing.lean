import ScriptEngine.Proofs.Remainder
import ScriptEngine.Proofs.Resolution
/-! What running code can observe of a world: the heap, the objects that methods run on without a
receiver, and what call sites find with the identities they keep. Evaluations in worlds that agree
in this end alike. The guards are not among it, since an evaluation in one go never waits. -/

namespace ScriptEngine

mutual

def Expr.sites : Expr → List CallSite
  | .literal .. | .var .. => []
  | .negate _ _ inner => inner.sites
  | .binary _ _ _ left right => left.sites ++ right.sites
  | .call _ _ site operands => site :: Expr.sitesIn operands

def Expr.sitesIn : List Expr → List CallSite
  | [] => []
  | first :: rest => first.sites ++ Expr.sitesIn rest

end

mutual

def Stmt.sites : Stmt → List CallSite
  | .block _ stmts => Stmt.sitesIn stmts
  | .return _ none | .declare _ _ _ _ none => []
  | .return _ (some value) | .wait _ value | .declare _ _ _ _ (some value) | .assign _ _ value
  | .expr value => value.sites

def Stmt.sitesIn : List Stmt → List CallSite
  | [] => []
  | first :: rest => first.sites ++ Stmt.sitesIn rest

end

def Function.sites (function : Function) : List CallSite := Stmt.sitesIn function.body.stmts

namespace Overload

variable {α : Type} {view : α → Callable} {hierarchy : Hierarchy} {kept found? : Option FunctionId}
  {name : String} {args : List DataType} {function : α}

theorem resolve_kept {withPublic : Bool} {own published : List α}
    (found : resolve view hierarchy withPublic kept name args own published =
      (.ok function, found?)) : found? = some (view function).id := by
  unfold resolve at found
  dsimp only at found
  split at found
  · rename_i known
    cases found
    obtain ⟨id, rfl, among⟩ := Option.bind_eq_some_iff.mp known
    have same := List.find?_some among
    rw [of_decide_eq_true same]
  · split at found
    · cases found
      rfl
    · cases found

theorem resolveAlong_kept {offered : List (List α)} :
    ∀ {first : Option CompileCause},
      resolveAlong view hierarchy kept name args first offered = (.ok function, found?) →
        found? = some (view function).id := by
  induction offered with
  | nil =>
      intro first found
      cases found
  | cons candidates rest ih =>
      intro first found
      rw [resolveAlong] at found
      split at found
      · rename_i resolved
        cases found
        exact resolve_kept resolved
      · exact ih found

end Overload

namespace Code

def Site (code : Code) (program : ProgramId) (site : CallSite) : Prop :=
  ∃ function, code.Owns function ∧ function.program = program ∧ site ∈ function.sites

def CalledFreely (code : Code) (function : Function) : Prop :=
  ∃ program kept name args found,
    code.resolveCall program kept name args = (.ok function, found)

def resolveSite (code : Code) (program : ProgramId) (site : CallSite) (kept : FunctionId)
    (className : String) (types : List DataType) : Except CompileCause Function :=
  if site.hasReceiver then (code.resolveMethod className (some kept) site.name types).1
  else (code.resolveCall program (some kept) site.name types).1

theorem Consistent.owns {code : Code} (consistent : code.Consistent) {program : ProgramId}
    {id : FunctionId} {function : Function}
    (found : code.programs.function? program id = some function) : code.Owns function := by
  unfold Programs.function? at found
  obtain ⟨loaded, got, among⟩ := Option.bind_eq_some_iff.mp found
  exact consistent.own loaded (List.mem_of_find?_eq_some got) function
    (List.mem_of_find?_eq_some among)

end Code

structure World.Agrees (code : Code) (world other : World) : Prop where
  heap : other.heap = world.heap
  instances : ∀ function, code.CalledFreely function → function.owner.isSome = true →
    other.instance? function.program = world.instance? function.program
  callees : ∀ program site, code.Site program site → ∀ className types,
    code.resolveSite program site (other.callee ⟨program, site.offset⟩ site.callee) className types =
      code.resolveSite program site (world.callee ⟨program, site.offset⟩ site.callee) className
        types

namespace World

variable {code : Code} {world other : World}

theorem lookup_replaced {κ β : Type} [DecidableEq κ] (key asked : κ) (value : β)
    (entries : List (κ × β)) :
    ((key, value) :: entries.filter fun entry => entry.1 ≠ key).lookup asked =
      if asked = key then some value else entries.lookup asked := by
  by_cases same : asked = key
  · simp [same]
  · rw [List.lookup_cons, beq_false_of_ne same, if_neg same]
    dsimp only
    induction entries with
    | nil => rfl
    | cons entry rest ih =>
        obtain ⟨name, kept⟩ := entry
        by_cases dropped : name = key
        · subst dropped
          simpa [List.lookup_cons, beq_false_of_ne same] using ih
        · rw [List.filter_cons_of_pos (by simpa using dropped), List.lookup_cons, List.lookup_cons,
            ih]

theorem instance?_withInstance (world : World) (program asked : ProgramId) (handle : Handle) :
    (world.withInstance program handle).instance? asked =
      if asked = program then some handle else world.instance? asked :=
  lookup_replaced program asked handle world.instances

theorem callee_keepCallee (world : World) (site asked : SiteId) (id compiled : FunctionId) :
    (world.keepCallee site (some id)).callee asked compiled =
      if asked = site then id else world.callee asked compiled := by
  unfold callee keepCallee
  rw [lookup_replaced]
  split <;> rfl

theorem Agrees.refl (code : Code) (world : World) : world.Agrees code world :=
  ⟨rfl, fun _ _ _ => rfl, fun _ _ _ _ _ => rfl⟩

theorem Agrees.withHeap (agrees : world.Agrees code other) (heap : Heap) :
    Agrees code { world with heap } { other with heap } :=
  ⟨rfl, agrees.instances, agrees.callees⟩

theorem Agrees.withGuards (agrees : world.Agrees code other) (guards others : GuardTable) :
    Agrees code { world with guards } { other with guards := others } :=
  ⟨agrees.heap, agrees.instances, agrees.callees⟩

theorem Agrees.withInstance (agrees : world.Agrees code other) (program : ProgramId)
    (handle : Handle) :
    Agrees code (world.withInstance program handle) (other.withInstance program handle) where
  heap := agrees.heap
  instances := by
    intro function called owned
    rw [instance?_withInstance, instance?_withInstance, agrees.instances function called owned]
  callees := agrees.callees

theorem Agrees.keepCallee (agrees : world.Agrees code other) (site : SiteId)
    (kept : Option FunctionId) :
    Agrees code (world.keepCallee site kept) (other.keepCallee site kept) := by
  cases kept with
  | none => exact agrees
  | some id =>
      refine ⟨agrees.heap, agrees.instances, ?_⟩
      intro program asked placed className types
      rw [callee_keepCallee, callee_keepCallee]
      split
      · rfl
      · exact agrees.callees program asked placed className types

end World

section

variable {code : Code} {world other : World}

/-- Something that fails in two worlds with one error, or hands back one value in both and leaves
worlds that agree. -/
inductive Alike {α : Type} (code : Code) :
    Except RuntimeError (α × World) → Except RuntimeError (α × World) → Prop
  | failed (error : RuntimeError) : Alike code (.error error) (.error error)
  | done (value : α) {world other : World} : world.Agrees code other →
      Alike code (.ok (value, world)) (.ok (value, other))

theorem programInstance_alike (agrees : world.Agrees code other) {program : ProgramId}
    (bound : other.instance? program = world.instance? program) (className : String) :
    Alike code (Invocation.programInstance code program className world)
      (Invocation.programInstance code program className other) := by
  unfold Invocation.programInstance
  rw [bound, agrees.heap]
  dsimp only
  split
  · exact .done _ agrees
  · split
    · exact .failed _
    · rename_i fields _
      have allocated := agrees.withHeap (world.heap.allocate ⟨className, fields⟩).2
      apply Alike.done
      split
      · exact allocated.withInstance program _
      · exact allocated

theorem bindInstance_alike (agrees : world.Agrees code other) {invocation : Invocation}
    (called : invocation.receiver = none → code.CalledFreely invocation.function)
    (vars : Variables) :
    Alike code (Invocation.bindInstance code invocation vars world)
      (Invocation.bindInstance code invocation vars other) := by
  unfold Invocation.bindInstance
  cases owned : invocation.function.owner with
  | none => exact .done _ agrees
  | some owner =>
      cases given : invocation.receiver with
      | some handle => exact .done _ agrees
      | none =>
          have bound := agrees.instances invocation.function (called given) (by simp [owned])
          have chosen := programInstance_alike agrees bound owner
          dsimp only
          generalize Invocation.programInstance code invocation.function.program owner world =
            here at chosen ⊢
          generalize Invocation.programInstance code invocation.function.program owner other =
            there at chosen ⊢
          cases chosen with
          | failed error => exact .failed error
          | done handle agrees => exact .done _ agrees

end

end ScriptEngine
