import ScriptEngine.Proofs.Mentions
import ScriptEngine.Proofs.Watched
/-! Names mean what they were compiled to. Along the way that running takes, the variables of a call
are those that its body has declared by then and those of its object, so each name that is looked up
is there as the compiler saw it. -/

namespace ScriptEngine

section

variable {inside : Surroundings}

mutual

theorem Stmt.Typed.declarations : ∀ {stmt : Stmt} {locals : Locals}, stmt.Typed inside locals →
    stmt.declarations = stmt.locals.mapIdx fun place entry => (⟨locals.length + place⟩, entry)
  | .block _ stmts, _, typed => by
      rw [Stmt.declarations, Stmt.locals]
      exact Stmt.TypedIn.declarations typed
  | .declare _ id name type none, locals, typed
  | .declare _ id name type (some _), locals, typed => by
      have same : id = ⟨locals.length⟩ := congrArg VarId.mk typed.1
      simp [Stmt.declarations, Stmt.locals, same]
  | .return .., _, _ | .wait .., _, _ | .assign .., _, _ | .expr _, _, _ => by
      simp [Stmt.declarations, Stmt.locals]

theorem Stmt.TypedIn.declarations : ∀ {stmts : List Stmt} {locals : Locals},
    Stmt.TypedIn inside locals stmts → Stmt.declarationsIn stmts =
      (Stmt.localsIn stmts).mapIdx fun place entry => (⟨locals.length + place⟩, entry)
  | [], _, _ => by
      simp [Stmt.declarationsIn, Stmt.localsIn]
  | first :: rest, locals, ⟨typed, others⟩ => by
      have behind := Stmt.TypedIn.declarations others
      have shifted : ∀ place, (locals ++ first.locals).length + place =
          locals.length + (place + first.locals.length) := by
        intro place
        rw [List.length_append]
        omega
      rw [Stmt.declarationsIn, Stmt.localsIn, typed.declarations, behind, List.mapIdx_append]
      simp only [shifted]

end

end

theorem Function.Typed.lookup {function : Function} {names : CallScope}
    (typed : function.Typed names) (id : VarId) : function.declarations.lookup id =
      (function.parameters ++ Stmt.localsIn function.body.stmts)[id.number]? := by
  have numbered : function.declarations =
      (function.parameters ++ Stmt.localsIn function.body.stmts).mapIdx fun place entry =>
        (⟨place⟩, entry) := by
    rw [Function.declarations, typed.body.declarations, List.mapIdx_append]
    simp only [Nat.add_comm]
  rw [numbered]
  generalize function.parameters ++ Stmt.localsIn function.body.stmts = locals
  induction locals using List.reverseRecOn with
  | nil => rfl
  | append_singleton before entry ih =>
      rw [List.mapIdx_concat, List.lookup_append, ih]
      rcases Nat.lt_trichotomy id.number before.length with inside | last | outside
      · simp [List.getElem?_append_left inside, List.getElem?_eq_getElem inside]
      · have same : id = ⟨before.length⟩ := congrArg VarId.mk last
        simp [same]
      · have different : id ≠ ⟨before.length⟩ := by
          rintro rfl
          exact Nat.lt_irrefl _ outside
        have absent : (before ++ [entry])[id.number]? = none := by
          rw [List.getElem?_eq_none_iff, List.length_append]
          exact outside
        simp [absent, different, Nat.le_of_lt outside]

mutual

theorem Stmt.declared_eq : ∀ stmt : Stmt,
    stmt.declared = stmt.declarations.map fun entry => (entry.1, entry.2.1)
  | .block _ stmts => by
      rw [Stmt.declared, Stmt.declarations, Stmt.declaredIn_eq stmts]
  | .declare .. | .return .. | .wait .. | .assign .. | .expr _ => by
      simp [Stmt.declared, Stmt.declarations]

theorem Stmt.declaredIn_eq : ∀ stmts : List Stmt,
    Stmt.declaredIn stmts = (Stmt.declarationsIn stmts).map fun entry => (entry.1, entry.2.1)
  | [] => by
      simp [Stmt.declaredIn, Stmt.declarationsIn]
  | first :: rest => by
      rw [Stmt.declaredIn, Stmt.declarationsIn, List.map_append, Stmt.declared_eq first,
        Stmt.declaredIn_eq rest]

end

theorem Function.Typed.placed {function : Function} {names : CallScope} {classes : ClassTable}
    (typed : function.Typed names) (coherent : function.Coherent classes) {place : Nat}
    {entry : String × DataType}
    (found : (function.parameters ++ Stmt.localsIn function.body.stmts)[place]? = some entry) :
    function.localId? entry.1 = some ⟨place⟩ := by
  by_cases before : place < function.parameters.length
  · rw [List.getElem?_append_left before, parameters, List.getElem?_map] at found
    obtain ⟨param, declared, rfl⟩ := Option.map_eq_some_iff.mp found
    exact coherent.params place param declared
  · rw [List.getElem?_append_right (Nat.le_of_not_lt before)] at found
    refine coherent.declared (⟨place⟩, entry.1) ?_
    rw [Stmt.declaredIn_eq, typed.body.declarations]
    refine List.mem_map.mpr ⟨(⟨place⟩, entry), List.mem_mapIdx.mpr ?_, rfl⟩
    obtain ⟨inside, same⟩ := List.getElem?_eq_some_iff.mp found
    exact ⟨_, inside, by rw [same, Nat.add_sub_cancel' (Nat.le_of_not_lt before)]⟩

theorem Function.Typed.distinct_locals {function : Function} {names : CallScope} {classes : ClassTable}
    (typed : function.Typed names) (coherent : function.Coherent classes) :
    ((function.parameters ++ Stmt.localsIn function.body.stmts).map Prod.fst).Nodup := by
  rw [List.nodup_iff_getElem?_ne_getElem?]
  intro first second lower inside same
  have later := (List.getElem?_eq_some_iff.mpr ⟨inside, rfl⟩ :
    ((function.parameters ++ Stmt.localsIn function.body.stmts).map Prod.fst)[second]? = some _)
  rw [later] at same
  rw [List.getElem?_map] at same later
  obtain ⟨entry, found, named⟩ := Option.map_eq_some_iff.mp same
  obtain ⟨other, behind, also⟩ := Option.map_eq_some_iff.mp later
  have places := (typed.placed coherent found).symm.trans
    ((congrArg function.localId? (named.trans also.symm)).trans (typed.placed coherent behind))
  exact Nat.ne_of_lt lower (congrArg VarId.number (Option.some.inj places))

section

variable {disc : Discipline} {past : Past} {code : Code} {world : World} {function : Function}
  {names : CallScope} {locals : Locals} {vars : Variables}

theorem Discipline.Governs.bound (governs : disc.Governs past code)
    (situated : disc.Situated code names function locals vars world) {target : Target}
    {type : DataType} (named : (function.surroundings names).Names locals target type) :
    Mention.Bound ⟨function, target, vars, world.heap⟩ := by
  obtain ⟨inside, typed, declared, healthy, suits⟩ := situated
  cases named with
  | «local» placed =>
      obtain ⟨var, only, rfl, rfl⟩ := suits.declares.only placed
      obtain ⟨more, whole⟩ := declared
      have earlier := (List.getElem?_eq_some_iff.mp placed).1
      refine ⟨var, only, (typed.lookup _).trans ?_⟩
      rw [← whole, List.getElem?_append_left earlier]
      exact placed
  | this owned =>
      obtain ⟨var, handle, found, held, _⟩ := (suits.hosts _ owned).this
      exact ⟨var, handle, found, held⟩
  | super owned parent =>
      obtain ⟨decl, known, _⟩ := Option.bind_eq_some_iff.mp parent
      have contained := congrArg Option.isSome known
      obtain ⟨var, handle, found, held, _⟩ :=
        (suits.hosts _ owned).super _ ((inside.grows.parent? contained).trans parent)
      exact ⟨var, handle, found, held⟩
  | member owned members among =>
      obtain ⟨handle, bound, fields⟩ := governs.field? inside healthy suits owned members among
      refine ⟨handle, bound, fun object live => ?_⟩
      obtain ⟨held, found, _⟩ := fields object live
      rw [found]
      rfl

theorem Discipline.Governs.mentions (governs : disc.Governs past code) :
    Mention.watcher.Sees Mention.Bound disc code where
  evaluated := by
    intro names function locals vars expr progress machine situated typed _ mention among
    cases expr with
    | var type span target =>
        rw [List.mem_singleton.mp among]
        exact governs.bound situated typed
    | literal | negate | binary | call => cases among
  stores := by
    intro names function locals vars target type machine situated named mention among
    rw [List.mem_singleton.mp among]
    exact governs.bound situated named

end

end ScriptEngine
