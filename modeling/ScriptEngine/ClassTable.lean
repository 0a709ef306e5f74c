import ScriptEngine.Variable
/-! The classes known to an engine. The host registers a class after its parent, so the table,
newest class first, has every ancestor of a class behind it. -/

namespace ScriptEngine

structure FieldDecl where
  name : String
  type : DataType
  isPrivate : Bool := false
deriving DecidableEq, Repr

/-- A call that the host answers for a class, outside of any script. -/
structure MethodDecl where
  name : String
  params : List DataType
  returns : DataType
deriving DecidableEq, Repr

structure ClassDecl where
  name : String
  parent : Option String := none
  fields : List FieldDecl := []
  methods : List MethodDecl := []
deriving DecidableEq, Repr, Inhabited

inductive RegisterError where
  | duplicateClass (name : String)
  | unknownParent (name parent : String)
deriving DecidableEq, Repr

def RegisterError.message : RegisterError → String
  | .duplicateClass name => s!"duplicate class: {name}"
  | .unknownParent name parent => s!"class '{name}' extends unknown class '{parent}'"

/-- Registered classes, the newest first. -/
structure ClassTable where
  classes : List ClassDecl := []
deriving DecidableEq, Repr, Inhabited

namespace ClassTable

def get? (table : ClassTable) (name : String) : Option ClassDecl :=
  table.classes.find? fun decl => decl.name = name

def contains (table : ClassTable) (name : String) : Bool := (table.get? name).isSome

def parent? (table : ClassTable) (name : String) : Option String :=
  (table.get? name).bind ClassDecl.parent

def register (table : ClassTable) (decl : ClassDecl) : Except RegisterError ClassTable :=
  if table.contains decl.name then .error (.duplicateClass decl.name)
  else match decl.parent with
    | some parent =>
        if table.contains parent then .ok ⟨decl :: table.classes⟩
        else .error (.unknownParent decl.name parent)
    | none => .ok ⟨decl :: table.classes⟩

/-- Every class of an older table is in a newer one as it was. -/
def Within (older newer : ClassTable) : Prop :=
  ∀ name decl, older.get? name = some decl → newer.get? name = some decl

theorem register_within {table after : ClassTable} {decl : ClassDecl}
    (registered : table.register decl = .ok after) : table.Within after := by
  intro name known found
  have free : table.get? decl.name = none := by
    cases taken : table.get? decl.name with
    | none => rfl
    | some other => simp [register, contains, taken] at registered
  have different : decl.name ≠ name := by
    intro same
    rw [same, found] at free
    cases free
  have shape : after = ⟨decl :: table.classes⟩ := by
    unfold register at registered
    split at registered
    · cases registered
    · split at registered
      · split at registered
        · exact (Except.ok.inj registered).symm
        · cases registered
      · exact (Except.ok.inj registered).symm
  rw [shape, get?, List.find?_cons_of_neg (by simpa using different)]
  exact found

/-- A class and its ancestors, each looked for among the classes older than the one before. -/
def ancestry (name : String) : List ClassDecl → List ClassDecl
  | [] => []
  | decl :: older =>
      if decl.name = name then
        decl :: match decl.parent with
          | some parent => ancestry parent older
          | none => []
      else ancestry name older

/-- The class and its ancestors, the most derived first. -/
def chain (table : ClassTable) (name : String) : List ClassDecl := ancestry name table.classes

def derives (table : ClassTable) : Hierarchy := fun derived base =>
  (table.chain derived).any fun decl => decl.name = base

def member (field : FieldDecl) : Variable :=
  { Variable.new field.name field.type with isPrivate := field.isPrivate }

/-- The members of a new object of a class, those of its oldest ancestor first. -/
def members? (table : ClassTable) (name : String) : Option Variables :=
  if table.contains name then
    some ((table.chain name).reverse.flatMap fun decl => decl.fields.map member)
  else none

/-- Whether the class itself declares a call with exactly these parameter types. -/
def declares (table : ClassTable) (className name : String) (params : List DataType) : Bool :=
  match table.get? className with
  | some decl => decl.methods.any fun method => method.name = name && method.params = params
  | none => false

end ClassTable

end ScriptEngine
