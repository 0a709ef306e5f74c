import ScriptEngine.Error
import ScriptEngine.Variable
/-! The names visible while a body is compiled. Names of parameters and locals are unique in the
whole function: a local goes out of sight at the end of its block, but its name stays taken. -/

namespace ScriptEngine

/-- What a name stands for when the body runs. -/
inductive Target where
  | local (id : VarId)
  | reserved (name : Reserved)
  | member (name : String)
deriving DecidableEq, Repr

structure Visible where
  name : String
  type : DataType
  target : Target
deriving DecidableEq, Repr

/-- The names outside of every block and those of the open blocks, the innermost first, each newest
first. -/
structure Scope where
  returns : DataType
  outer : List Visible := []
  blocks : List (List Visible) := []
  taken : List String := []
  /-- Parameters and locals in the order of their identities. -/
  locals : List String := []
deriving Repr

namespace Scope

def add (scope : Scope) (visible : Visible) : Scope :=
  match scope.blocks with
  | [] => { scope with outer := visible :: scope.outer }
  | block :: rest => { scope with blocks := (visible :: block) :: rest }

def addLocal (scope : Scope) (name : String) (type : DataType) (span : Span) :
    Except CompileError (VarId × Scope) :=
  if name ∈ scope.taken then .error ⟨.redefinedVariable, span, some name⟩
  else
    let id : VarId := ⟨scope.locals.length⟩
    let declared := scope.add ⟨name, type, .local id⟩
    .ok (id, { declared with taken := name :: scope.taken, locals := scope.locals ++ [name] })

def addReserved (scope : Scope) (name : Reserved) (type : DataType) : Scope :=
  let declared := scope.add ⟨name.name, type, .reserved name⟩
  { declared with taken := name.name :: scope.taken }

def addMember (scope : Scope) (name : String) (type : DataType) : Scope :=
  scope.add ⟨name, type, .member name⟩

def visible (scope : Scope) : List Visible := scope.blocks.flatten ++ scope.outer

def lookup (scope : Scope) (name : String) : Option Visible :=
  scope.visible.find? fun entry => entry.name = name

def pushBlock (scope : Scope) : Scope := { scope with blocks := [] :: scope.blocks }

def popBlock (scope : Scope) : Scope := { scope with blocks := scope.blocks.tail }

section

variable {scope later : Scope}

theorem visible_add (scope : Scope) (entry : Visible) :
    (scope.add entry).visible = entry :: scope.visible := by
  unfold add visible
  split
  · rename_i outermost
    rw [outermost, List.flatten_nil, List.nil_append, List.nil_append]
  · rename_i opened
    rw [opened, List.flatten_cons, List.flatten_cons, List.cons_append, List.cons_append]

theorem add_locals (visible : Visible) : (scope.add visible).locals = scope.locals := by
  unfold add
  split <;> rfl

theorem add_taken (visible : Visible) : (scope.add visible).taken = scope.taken := by
  unfold add
  split <;> rfl

theorem addLocal_eq_ok_iff {name : String} {type : DataType} {span : Span} {id : VarId} :
    scope.addLocal name type span = .ok (id, later) ↔
      name ∉ scope.taken ∧ id = ⟨scope.locals.length⟩ ∧
        later = { scope.add ⟨name, type, .local id⟩ with
          taken := name :: scope.taken, locals := scope.locals ++ [name] } := by
  unfold addLocal
  split
  · rename_i taken
    exact ⟨nofun, fun fits => absurd taken fits.1⟩
  · rename_i free
    constructor
    · intro added
      cases added
      exact ⟨free, rfl, rfl⟩
    · rintro ⟨_, rfl, rfl⟩
      rfl

theorem addLocal_eq_error_iff {name : String} {type : DataType} {span : Span}
    {error : CompileError} : scope.addLocal name type span = .error error ↔
      name ∈ scope.taken ∧ error = ⟨.redefinedVariable, span, some name⟩ := by
  unfold addLocal
  split
  · rename_i taken
    exact ⟨fun refused => ⟨taken, (Except.error.inj refused).symm⟩, fun refused => refused.2 ▸ rfl⟩
  · rename_i free
    exact ⟨nofun, fun refused => absurd refused.1 free⟩

end

end Scope

end ScriptEngine
