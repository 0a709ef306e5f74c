import ScriptEngine.Proofs.Bodies
import ScriptEngine.Proofs.Environment
import ScriptEngine.Proofs.Tallying
/-! What is kept up about the values that running code meets. A discipline says what the value of a
static type is known to be and which failures that rules out; frames of suspended calls keep to it
if their variables are those that the body has declared so far, and if their temporaries are values
of the operands that were computed. -/

namespace ScriptEngine

def Expr.reservedClass? : Expr → Option String
  | .var type _ (.reserved _) => type.className?
  | .var _ _ (.local _) | .var _ _ (.member _) | .literal .. | .negate .. | .binary ..
  | .call .. => none

def Code.realm (code : Code) (world : World) : Realm := ⟨code.classes, world.heap⟩

def RuntimeCause.isStatic : RuntimeCause → Bool
  | .unknownVariable | .missingInstance | .typeMismatch | .undefinedCall => true
  | .unknownFunction | .nullReference | .staleObject | .stackOverflow | .divisionByZero => false

structure Discipline where
  /-- The causes that no step of running code fails with. -/
  bars : RuntimeCause → Prop
  fits : Realm → DataType → Value → Prop
  /-- Whether an object of a class may be what an expression of a class type stands for. -/
  meets : ClassTable → String → String → Prop
  /-- Whether a call with operands of some types may end up in a function and have some type. -/
  answers : Code → Function → List DataType → DataType → Prop
  /-- What is known of the identities that call sites keep. -/
  remembers : Code → World → Prop

namespace Discipline

variable (disc : Discipline)

def Stores (realm : Realm) (type : DataType) (value : Value) : Prop :=
  match value.convert? type with
  | some stored => disc.fits realm type stored
  | none => ¬ disc.bars .typeMismatch

def Passes (realm : Realm) (type : DataType) : Except RuntimeError Value → Prop
  | .ok value => disc.fits realm type value
  | .error error => ¬ disc.bars error.cause

def Takes (realm : Realm) (function : Function) (args : Variables) : Prop :=
  ∀ (place : Nat) (param : Param), function.params.params[place]? = some param →
    match args[place]? with
    | some arg => disc.Stores realm param.type arg.value
    | none => ¬ disc.bars .typeMismatch

structure Lawful : Prop where
  barred : ∀ {cause}, disc.bars cause → cause.isStatic = true
  later : ∀ {realm after type value}, disc.fits realm type value → realm.Leads after →
    disc.fits after type value
  refers : ∀ {realm handle className}, realm.Refers handle className →
    disc.fits realm (.object className) (.object handle)
  default : ∀ {realm type}, disc.fits realm type (.default type)
  literal : ∀ {realm type} {value written : Value}, value.asObject? = none →
    written.convert? type = some value → disc.fits realm type value
  stored : ∀ {realm type given value}, ClassTable.Founded realm.classes.classes →
    type.accepts realm.classes.derives given = true →
      disc.fits realm given value → disc.Stores realm type value
  void : ∀ {realm type}, type.isVoid = true → disc.Stores realm type .void
  negated : ∀ {realm given value} {span : Span}, given.kind.isNumeric = true →
    disc.fits realm given value → disc.Passes realm (given.promote given)
      (Evaluation.negate value (given.promote given) span)
  operated : ∀ {realm operator leftType rightType type left right} {span : Span},
    operator.Gives leftType rightType type → disc.fits realm leftType left →
      disc.fits realm rightType right → disc.Passes realm type
        (Evaluation.operate operator leftType rightType type [left, right] span)
  met : ∀ {realm type static handle object}, disc.fits realm type (.object handle) →
    type.className? = some static → realm.heap.get? handle = some object →
      disc.meets realm.classes object.className static
  meets_refl : ∀ classes className, disc.meets classes className className
  returned : ∀ {code function types type realm value}, disc.answers code function types type →
    code.classes.Grows realm.classes → ClassTable.Founded realm.classes.classes →
      disc.fits realm function.returns value → disc.fits realm type value
  bound : ∀ {code function world} {types : List DataType} {type} {values : List Value},
    ClassTable.Founded code.classes.classes → disc.answers code function types type →
      values.length = types.length →
      (∀ (place : Nat) (given : DataType) (value : Value), types[place]? = some given →
        values[place]? = some value →
        disc.fits (code.realm world) given value) →
      disc.Takes (code.realm world) function (Evaluation.arguments types values)
  kept : ∀ {code world other}, disc.remembers code world → other.callees = world.callees →
    disc.remembers code other

structure Found (code : Code) (world : World) (site : SiteId) (types : List DataType)
    (type : DataType) (resolved : Except CompileCause Function × Option FunctionId) : Prop where
  answers : ∀ function id?, resolved = (.ok function, id?) →
    disc.answers code function types type ∧ disc.remembers code (world.keepCallee site id?)
  fails : ∀ cause id?, resolved = (.error cause, id?) → ¬ disc.bars .undefinedCall

structure Resolves (code : Code) (program : ProgramId) (site : CallSite) (types : List DataType)
    (type : DataType) : Prop where
  free : ∀ world, site.hasReceiver = false → disc.remembers code world →
    disc.Found code world ⟨program, site.offset⟩ types type (code.resolveCall program
      (some (world.callee ⟨program, site.offset⟩ site.callee)) site.name types)
  method : ∀ world static className, site.hasReceiver = true → disc.remembers code world →
    types.head?.bind DataType.className? = some static →
      disc.meets code.classes className static →
      (∀ fixed, site.dispatch = .ofClass fixed → className = fixed) →
        disc.Found code world ⟨program, site.offset⟩ (types.drop 1) type
          (code.resolveMethod className (some (world.callee ⟨program, site.offset⟩ site.callee))
            site.name (types.drop 1))

/-- A loaded function was compiled against declarations that are still there. -/
structure Inside (code : Code) (function : Function) (names : CallScope) : Prop where
  owns : code.Owns function
  grows : names.classes.Grows code.classes
  sites : ∀ call ∈ function.calls, ∀ type, names.Resolves type call.1 call.2 →
    disc.Resolves code function.program call.1 (call.2.map Expr.type) type

structure Governs (past : Past) (code : Code) : Prop extends past.Fits code where
  lawful : disc.Lawful
  founded : ClassTable.Founded code.classes.classes
  member : ∀ {heap className fields field other}, code.classes.members? className = some fields →
    field ∈ fields → other ∈ fields → field.name = other.name → ∀ value,
      (disc.fits ⟨code.classes, heap⟩ field.type value →
        disc.fits ⟨code.classes, heap⟩ other.type value) ∧
      (disc.Stores ⟨code.classes, heap⟩ field.type value →
        disc.Stores ⟨code.classes, heap⟩ other.type value)
  compiled : ∀ function, code.Owns function →
    ∃ names, function.Typed names ∧ disc.Inside code function names
  /-- What a search finds for a call of the host answers it. -/
  calls : ∀ {program name types function id?},
    code.resolveCall program none name types = (.ok function, id?) →
      ∃ type, disc.answers code function types type
  methods : ∀ {className name types function id?},
    code.resolveMethod className none name types = (.ok function, id?) →
      ∃ type, disc.answers code function types type

structure Healthy (code : Code) (world : World) : Prop where
  reusable : world.heap.Reusable
  built : world.heap.All (Object.IsBuilt code.classes)
  fields : world.heap.All fun object => ∀ field ∈ object.fields,
    disc.fits (code.realm world) field.type field.value
  remembers : disc.remembers code world

structure Leads (code : Code) (world after : World) : Prop where
  healthy : disc.Healthy code after
  realm : (code.realm world).Leads (code.realm after)

structure Yields (realm : Realm) (expr : Expr) (value : Value) : Prop where
  fits : disc.fits realm expr.type value
  points : ∀ className, expr.reservedClass? = some className →
    ∃ handle, value = .object handle ∧ realm.Refers handle className

def Evaluates (realm : Realm) (expr : Expr) : Except RuntimeError Value → Prop
  | .ok value => disc.Yields realm expr value
  | .error error => ¬ disc.bars error.cause

def Computed (realm : Realm) (operands : List Expr) (temps : List Value) : Prop :=
  ∀ (place : Nat) (operand : Expr) (value : Value), operands[place]? = some operand →
    temps[place]? = some value → disc.Yields realm operand value

structure Suits (realm : Realm) (function : Function) (locals : Locals) (vars : Variables) :
    Prop where
  declares : vars.Declares locals
  hosts : ∀ owner, function.owner = some owner → vars.Hosts realm owner
  fits : ∀ var ∈ vars, disc.fits realm var.type var.value

section

variable {disc : Discipline} {code : Code} {world after : World} {realm further : Realm}

theorem Lawful.spares (lawful : disc.Lawful) {cause : RuntimeCause}
    (dynamic : cause.isStatic = false) : ¬ disc.bars cause := by
  intro barred
  rw [lawful.barred barred] at dynamic
  cases dynamic

theorem Yields.later {expr : Expr} {value : Value} (yields : disc.Yields realm expr value)
    (lawful : disc.Lawful) (leads : realm.Leads further) : disc.Yields further expr value := by
  refine ⟨lawful.later yields.fits leads, fun className named => ?_⟩
  obtain ⟨handle, same, refers⟩ := yields.points className named
  exact ⟨handle, same, refers.later leads⟩

theorem Computed.later {operands : List Expr} {temps : List Value}
    (computed : disc.Computed realm operands temps) (lawful : disc.Lawful)
    (leads : realm.Leads further) : disc.Computed further operands temps :=
  fun place operand value placed held =>
    (computed place operand value placed held).later lawful leads

theorem Computed.nil (operands : List Expr) : disc.Computed realm operands [] :=
  nofun

theorem Computed.concat {operands : List Expr} {temps : List Value} {operand : Expr}
    {value : Value} (computed : disc.Computed realm operands temps)
    (placed : operands[temps.length]? = some operand) (yields : disc.Yields realm operand value) :
    disc.Computed realm operands (temps ++ [value]) := by
  intro place other given found held
  by_cases inside : place < temps.length
  · rw [List.getElem?_append_left inside] at held
    exact computed place other given found held
  · rw [List.getElem?_append_right (Nat.le_of_not_lt inside), List.getElem?_singleton] at held
    split at held
    · rename_i last
      have same : place = temps.length := Nat.le_antisymm (Nat.sub_eq_zero_iff_le.mp last)
        (Nat.le_of_not_lt inside)
      rw [same, placed] at found
      cases found
      cases held
      exact yields
    · cases held

theorem Computed.fits {operands : List Expr} {temps : List Value}
    (computed : disc.Computed realm operands temps) (place : Nat) (given : DataType) (value : Value)
    (typed : (operands.map Expr.type)[place]? = some given) (held : temps[place]? = some value) :
    disc.fits realm given value := by
  rw [List.getElem?_map, Option.map_eq_some_iff] at typed
  obtain ⟨operand, placed, rfl⟩ := typed
  exact (computed place operand value placed held).fits

theorem Computed.tail {first : Expr} {rest : List Expr} {value : Value} {more : List Value}
    (computed : disc.Computed realm (first :: rest) (value :: more)) :
    disc.Yields realm first value ∧ disc.Computed realm rest more :=
  ⟨computed 0 first value rfl rfl, fun place operand held => computed (place + 1) operand held⟩

namespace Suits

variable {function : Function} {locals : Locals} {vars : Variables}

theorem later (suits : disc.Suits realm function locals vars) (lawful : disc.Lawful)
    (leads : realm.Leads further) : disc.Suits further function locals vars where
  declares := suits.declares
  hosts := fun owner owned => (suits.hosts owner owned).later leads
  fits := fun var among => lawful.later (suits.fits var among) leads

theorem concat (suits : disc.Suits realm function locals vars) {var : Variable}
    (bound : var.binding = .var ⟨locals.length⟩) (fits : disc.fits realm var.type var.value) :
    disc.Suits realm function (locals ++ [(var.name, var.type)]) (vars ++ [var]) where
  declares := suits.declares.concat bound
  hosts := fun owner owned => (suits.hosts owner owned).append _
  fits := by
    intro other among
    rcases List.mem_append.mp among with old | new
    · exact suits.fits other old
    · rw [List.mem_singleton.mp new]
      exact fits

theorem update (suits : disc.Suits realm function locals vars) {id : VarId} {var : Variable}
    {value : Value} (found : vars.find? (.var id) = some var)
    (fits : disc.fits realm var.type value) :
    disc.Suits realm function locals (vars.update (.var id) fun var => var.set value) where
  declares := suits.declares.update _ _
  hosts := fun owner owned => (suits.hosts owner owned).update id value
  fits := by
    intro other among
    rcases Variables.mem_update among with old | ⟨old, held, rfl⟩
    · exact suits.fits other old
    · rw [found] at held
      cases held
      exact fits

end Suits

namespace Leads

theorem refl (healthy : disc.Healthy code world) : disc.Leads code world world :=
  ⟨healthy, .refl _⟩

theorem trans {middle : World} (first : disc.Leads code world middle)
    (second : disc.Leads code middle after) : disc.Leads code world after :=
  ⟨second.healthy, first.realm.trans second.realm⟩

end Leads

namespace Healthy

theorem recoded (healthy : disc.Healthy code world) (lawful : disc.Lawful) {other : Code}
    (grows : code.classes.Grows other.classes) (heap : after.heap = world.heap)
    (remembers : disc.remembers other after) : disc.Healthy other after where
  reusable := heap ▸ healthy.reusable
  built := by
    rw [heap]
    exact healthy.built.imp fun object built => built.later grows
  fields := by
    have leads : (code.realm world).Leads (other.realm after) := by
      rw [Code.realm, Code.realm, heap]
      exact ⟨grows, .refl _⟩
    rw [heap]
    exact healthy.fields.imp fun object fits field among => lawful.later (fits field among) leads
  remembers := remembers

theorem congr (healthy : disc.Healthy code world) (lawful : disc.Lawful)
    (heap : after.heap = world.heap) (callees : after.callees = world.callees) :
    disc.Leads code world after := by
  have same : code.realm after = code.realm world := by
    rw [Code.realm, heap]
    rfl
  exact ⟨healthy.recoded lawful (.refl _) heap (lawful.kept healthy.remembers callees),
    same ▸ .refl _⟩

theorem keepCallee (healthy : disc.Healthy code world) {site : SiteId} {id? : Option FunctionId}
    (remembers : disc.remembers code (world.keepCallee site id?)) :
    disc.Leads code world (world.keepCallee site id?) := by
  have heap : (world.keepCallee site id?).heap = world.heap := by
    cases id? <;> rfl
  have same : code.realm (world.keepCallee site id?) = code.realm world := by
    rw [Code.realm, heap]
    rfl
  refine ⟨⟨heap ▸ healthy.reusable, heap ▸ healthy.built, ?_, remembers⟩, same ▸ .refl _⟩
  rw [heap, same]
  exact healthy.fields

theorem allocate (healthy : disc.Healthy code world) (lawful : disc.Lawful) {className : String}
    {fields : Variables} (members : code.classes.members? className = some fields) :
    disc.Leads code world { world with heap := (world.heap.allocate ⟨className, fields⟩).2 } := by
  have leads := Heap.allocate_leads healthy.reusable ⟨className, fields⟩
  have realm : (code.realm world).Leads
      (code.realm { world with heap := (world.heap.allocate ⟨className, fields⟩).2 }) :=
    ⟨.refl _, leads⟩
  refine ⟨⟨Heap.allocate_reusable healthy.reusable _,
    Heap.allocate_all healthy.built (.made members), ?_,
    lawful.kept healthy.remembers rfl⟩, realm⟩
  refine Heap.allocate_all (healthy.fields.imp fun object fits field among =>
    lawful.later (fits field among) realm) fun field among => ?_
  rw [ClassTable.value_of_members? members field among]
  exact lawful.default

theorem store (healthy : disc.Healthy code world) (lawful : disc.Lawful) {handle : Handle}
    {object : Object} {name : String} {field : Variable} {value : Value}
    (live : world.heap.get? handle = some object) (found : object.field? name = some field)
    (fits : disc.fits (code.realm world) field.type value) :
    disc.Leads code world { world with
      heap := world.heap.update handle fun object =>
        object.updateField name fun field => field.set value } := by
  have realm : (code.realm world).Leads (code.realm { world with
      heap := world.heap.update handle fun object =>
        object.updateField name fun field => field.set value }) :=
    ⟨.refl _, Heap.update_leads fun _ => rfl⟩
  refine ⟨⟨Heap.update_reusable healthy.reusable, Heap.update_all healthy.built
    fun object live => (healthy.built.get? live).set name value, ?_,
    lawful.kept healthy.remembers rfl⟩, realm⟩
  refine Heap.update_all (healthy.fields.imp fun object fits field among =>
    lawful.later (fits field among) realm) fun other held changed among => ?_
  rw [live] at held
  cases held
  rcases Variables.mem_updateFirst among with old | ⟨old, first, rfl⟩
  · exact lawful.later (healthy.fields.get? live changed old) realm
  · have same : old = field := Option.some.inj (first.symm.trans found)
    rw [same]
    exact lawful.later fits realm

end Healthy

end

end Discipline

end ScriptEngine
