import ScriptEngine.Proofs.Overriding
import ScriptEngine.Proofs.Standing
/-! Calls that are linked to what was declared for them. A loaded program was compiled against
functions that are still there, so each of its calls finds a function that takes the operands; where
overriding methods agree in what they return, what the call gives is of the type it was compiled
with. -/

namespace ScriptEngine

def ClassTable.Unambiguous (classes : ClassTable) : Prop :=
  ∀ className fields, classes.members? className = some fields → ∀ field ∈ fields, ∀ other ∈ fields,
    field.name = other.name → field.type = other.type

/-- Methods that one call can mean return alike: where one of them is declared for a class that derives
from that of the other, or both by different programs for one class, what it returns is also a value of
what the other returns. -/
def Code.Harmonious (code : Code) : Prop :=
  ∀ derived base, code.classes.derives derived base = true →
    ∀ method ∈ code.programs.classMethods derived, ∀ other ∈ code.programs.classMethods base,
      (derived ≠ base ∨ method.program ≠ other.program) →
        (∃ types, Overload.Fits code.classes.derives other.name types method.callable ∧
          Overload.Fits code.classes.derives other.name types other.callable) →
          method.returns.specializes code.classes.derives other.returns = true

structure Code.Covers (code : Code) (program : Program) (names : CallScope) : Prop where
  grows : names.classes.Grows code.classes
  own : ∀ callable ∈ names.own, ∃ function ∈ program.free, function.callable = callable
  published : ∀ callable ∈ names.published, ∃ function ∈ code.publicFunctions,
    function.callable = callable
  methods : ∀ className, ∃ earlier later : List Function,
    names.methods className =
      (program.methods className ++ earlier).map Function.callable ∧
    code.programs.classMethods className = earlier ++ program.methods className ++ later ∧
    (∀ method ∈ earlier, method.program ≠ program.id) ∧
    ∀ method ∈ later, method.program ≠ program.id ∧ ∀ other ∈ earlier,
      method.program ≠ other.program

structure Code.Linked (code : Code) : Prop where
  compiled : ∀ program ∈ code.programs, ∀ function ∈ program.functions,
    ∃ names, function.Typed names ∧ code.Covers program names
  sites : ∀ program ∈ code.programs,
    ((program.functions.flatMap Function.calls).map fun call => call.1.offset).Nodup

structure Code.Replaces (code : Code) (site : CallSite) (types : List DataType) (method : Function) :
    Prop where
  declared : ∃ className, method ∈ code.programs.classMethods className
  fits : Overload.Fits code.classes.derives site.name types method.callable
  returns : ∃ compiled, code.Owns compiled ∧ compiled.id = site.callee ∧
    method.returns.specializes code.classes.derives compiled.returns = true

def Code.Means (code : Code) (call : CallSite × List Expr) (id : FunctionId) : Prop :=
  if call.1.hasReceiver then
    ∃ method, method.id = id ∧ code.Replaces call.1 ((call.2.drop 1).map Expr.type) method
  else id = call.1.callee

theorem Code.means_free {code : Code} {call : CallSite × List Expr} {id : FunctionId}
    (bare : call.1.hasReceiver = false) : code.Means call id ↔ id = call.1.callee := by
  simp [Code.Means, bare]

theorem Code.means_method {code : Code} {call : CallSite × List Expr} {id : FunctionId}
    (dispatches : call.1.hasReceiver = true) : code.Means call id ↔ ∃ method, method.id = id ∧
      code.Replaces call.1 ((call.2.drop 1).map Expr.type) method := by
  simp [Code.Means, dispatches]

structure Code.Remembers (code : Code) (world : World) : Prop where
  loaded : ∀ entry ∈ world.callees, ∃ program ∈ code.programs, program.id = entry.1.program
  means : ∀ function, code.Owns function → ∀ call ∈ function.calls,
    code.Means call (world.callee ⟨function.program, call.1.offset⟩ call.1.callee)

/-- Values fit their types, what methods are called on is of the class that they were looked up in, and
no failure of names, types and calls comes up. -/
def typing : Discipline where
  bars cause := cause.isStatic = true
  fits realm type value := value.Fits realm type
  meets classes derived base := derived = base ∨ classes.derives derived base = true
  answers code function types type :=
    (∃ cost, Score.of code.classes.derives function.params.types types = .distance cost) ∧
      function.returns.specializes code.classes.derives type = true
  remembers := Code.Remembers

theorem typing_stores {realm : Realm} {type : DataType} {value stored : Value}
    (converted : value.convert? type = some stored) (fits : stored.Fits realm type) :
    typing.Stores realm type value := by
  unfold Discipline.Stores
  rw [converted]
  exact fits

theorem typing_lawful : typing.Lawful where
  barred := id
  later := Value.Fits.later
  refers := Value.Fits.object
  default := Value.Fits.default _ _
  literal := fun plain converted => .of_converted converted plain
  stored := by
    intro realm type given value founded accepted fits
    obtain ⟨stored, converted, fits⟩ := Value.Fits.stored founded fits accepted
    exact typing_stores converted fits
  void := by
    intro realm type void
    have kind : type.kind = .void := by simpa [DataType.isVoid] using void
    have converted : Value.convert? .void type = some .void := by simp [Value.convert?, kind]
    exact typing_stores converted (.of_converted converted rfl)
  negated := by
    intro realm given value span numeric fits
    obtain ⟨opposite, negated, fits⟩ := Evaluation.negate_fits span fits numeric
    rw [negated]
    exact fits
  operated := by
    intro realm operator leftType rightType type left right span gives first second
    have operated := Evaluation.operate_fits span gives first second
    cases result : Evaluation.operate operator leftType rightType type [left, right] span with
    | ok value =>
        rw [result] at operated
        exact operated
    | error error =>
        rw [result] at operated
        dsimp only at operated
        simp [Discipline.Passes, typing, operated, RuntimeCause.isStatic]
  met := by
    intro realm type static handle object fits named live
    exact Or.inr ((fits.refers handle static rfl named).derives live)
  meets_refl := fun _ _ => Or.inl rfl
  returned := by
    intro code function types type realm value answers grows founded fits
    refine Value.Fits.general founded fits ?_
    exact DataType.specializes_mono (fun _ _ => grows.derives) answers.2
  bound := by
    intro code function world types type values founded answers counted fits place param placed
    obtain ⟨⟨cost, scored⟩, _⟩ := answers
    have accepted := Score.of_distance scored
    obtain ⟨inside, rfl⟩ := List.getElem?_eq_some_iff.mp placed
    have listed : place < function.params.types.length := by simpa [ParamList.types] using inside
    have given : place < types.length := accepted.length_eq ▸ listed
    have held : place < values.length := counted ▸ given
    have taken := accepted.get listed given
    have argument : (Evaluation.arguments types values)[place]? =
        some (Variable.holding "" types[place] values[place]) := by
      simp [Evaluation.arguments, given, held]
    rw [argument]
    obtain ⟨stored, converted, stays⟩ := Value.Fits.stored founded
      (fits place _ _ (List.getElem?_eq_getElem given) (List.getElem?_eq_getElem held)) taken
    have same : (function.params.types.get ⟨place, listed⟩) = function.params.params[place].type := by
      simp [ParamList.types]
    rw [same] at converted stays
    exact typing_stores converted stays
  kept := by
    intro code world other remembers callees
    refine ⟨callees ▸ remembers.loaded, fun function owns call among => ?_⟩
    have same : ∀ site compiled, other.callee site compiled = world.callee site compiled := by
      intro site compiled
      rw [World.callee, callees]
      rfl
    rw [same]
    exact remembers.means function owns call among

namespace Overload

variable {name : String} {types : List DataType}

theorem search_grows {α : Type} {view : α → Callable} {older newer : ClassTable}
    (grows : older.Grows newer) (known : ∀ given ∈ types, given.kind = .object → ∀ className,
      given.className? = some className → older.contains className = true) (candidates : List α) :
    search view newer.derives name types candidates =
      search view older.derives name types candidates := by
  unfold search
  simp only [Score.of_grows grows known]

theorem search_same_program {hierarchy : Hierarchy} {own earlier later : List Function}
    {compiled found : Function} {id : ProgramId}
    (first : search Function.callable hierarchy name types (own ++ earlier) = .ok compiled)
    (second : search Function.callable hierarchy name types (earlier ++ own ++ later) = .ok found)
    (same : found.program = compiled.program) (ours : ∀ method ∈ own, method.program = id)
    (theirs : ∀ method ∈ earlier, method.program ≠ id)
    (behind : ∀ method ∈ later, method.program ≠ id ∧ ∀ other ∈ earlier,
      method.program ≠ other.program) : found = compiled := by
  have one := search_filter first (fun method => method.program = compiled.program)
    (decide_eq_true rfl)
  have two := search_filter second (fun method => method.program = compiled.program)
    (decide_eq_true same)
  have foreign : ∀ {methods : List Function}, (∀ method ∈ methods, method.program ≠ compiled.program) →
      methods.filter (fun method => method.program = compiled.program) = [] := fun apart =>
    List.filter_eq_nil_iff.mpr fun method among => by simpa using apart method among
  have alike : (own ++ earlier).filter (fun method => method.program = compiled.program) =
      (earlier ++ own ++ later).filter fun method => method.program = compiled.program := by
    rw [List.filter_append, List.filter_append, List.filter_append]
    by_cases here : compiled.program = id
    · rw [foreign (fun method among => here ▸ theirs method among),
        foreign (fun method among => here ▸ (behind method among).1)]
      simp
    · have among : compiled ∈ earlier := by
        rcases List.mem_append.mp (search_mem first) with own | old
        · exact absurd (ours compiled own) here
        · exact old
      rw [foreign (fun method own => (ours method own) ▸ Ne.symm here),
        foreign (fun method new => (behind method new).2 compiled among)]
      simp
  rw [alike, two] at one
  exact Except.ok.inj one

end Overload

section

variable {engine : Engine} {known : List Function}

namespace Engine.Knows

theorem program_of_owns (knows : engine.Knows known) {function : Function}
    (owns : engine.code.Owns function) : ∃ program ∈ engine.code.programs,
      program.id = function.program ∧ function ∈ program.functions := by
  obtain ⟨program, loaded, named, declared, _⟩ := knows.function?_iff.mp owns
  exact ⟨program, loaded, named, declared⟩

theorem owns_same (knows : engine.Knows known) {function other : Function}
    (owns : engine.code.Owns function) (also : engine.code.Owns other)
    (same : function.id = other.id) : function = other :=
  knows.same (knows.fits.owned _ owns) (knows.fits.owned _ also) same

theorem owns_classMethod (knows : engine.Knows known) {className : String} {method : Function}
    (among : method ∈ engine.code.programs.classMethods className) : engine.code.Owns method := by
  obtain ⟨program, loaded, declared, _⟩ := Programs.mem_classMethods among
  exact knows.consistent.own program loaded method declared

end Engine.Knows

namespace Code.Linked

theorem only (linked : engine.code.Linked) (knows : engine.Knows known) {function other : Function}
    {call also : CallSite × List Expr} (owns : engine.code.Owns function)
    (has : engine.code.Owns other) (same : other.program = function.program)
    (among : call ∈ function.calls) (again : also ∈ other.calls)
    (place : also.1.offset = call.1.offset) : also = call := by
  obtain ⟨program, loaded, named, declared⟩ := knows.program_of_owns owns
  obtain ⟨second, held, called, defined⟩ := knows.program_of_owns has
  obtain rfl := List.inj_on_of_nodup_map knows.programs held loaded
    (called.trans (same.trans named.symm))
  exact List.inj_on_of_nodup_map (linked.sites _ loaded)
    (List.mem_flatMap.mpr ⟨other, defined, again⟩) (List.mem_flatMap.mpr ⟨function, declared, among⟩)
    place

theorem keep (linked : engine.code.Linked) (knows : engine.Knows known) {world : World}
    (remembers : engine.code.Remembers world) {function : Function} {call : CallSite × List Expr}
    {id : FunctionId} (owns : engine.code.Owns function) (among : call ∈ function.calls)
    (means : engine.code.Means call id) : engine.code.Remembers
      (world.keepCallee ⟨function.program, call.1.offset⟩ (some id)) where
  loaded := by
    intro entry kept
    rcases List.mem_cons.mp kept with rfl | old
    · obtain ⟨program, loaded, named, _⟩ := knows.program_of_owns owns
      exact ⟨program, loaded, named⟩
    · exact remembers.loaded entry (List.mem_filter.mp old).1
  means := by
    intro other has also again
    rw [World.callee_keepCallee]
    split
    · rename_i same
      obtain ⟨program, place⟩ := SiteId.mk.inj same
      rw [linked.only knows owns has program among again place]
      exact means
    · exact remembers.means other has also again

end Code.Linked

theorem Overload.Fits.grows {older newer : ClassTable} (grows : older.Grows newer) {name : String}
    {types : List DataType} {callable : Callable}
    (fits : Overload.Fits older.derives name types callable) :
    Overload.Fits newer.derives name types callable := by
  obtain ⟨named, cost, scored⟩ := fits
  exact ⟨named, cost, (Score.of_grows grows (Score.known_of_distance scored) _).trans scored⟩

section

variable {function : Function} {program : Program} {names : CallScope} {site : CallSite}
  {operands : List Expr} {world : World}

theorem Code.Linked.free_found (linked : engine.code.Linked) (knows : engine.Knows known)
    (remembers : engine.code.Remembers world) (owns : engine.code.Owns function)
    (among : (site, operands) ∈ function.calls) (loaded : program ∈ engine.code.programs)
    (named : program.id = function.program) (covers : engine.code.Covers program names)
    {callee : Callable} (bare : site.hasReceiver = false)
    (resolved : names.resolveCall site.name (operands.map Expr.type) = .ok callee)
    (same : callee.id = site.callee) :
    typing.Found engine.code world ⟨function.program, site.offset⟩ (operands.map Expr.type)
      callee.returns (engine.code.resolveCall function.program
        (some (world.callee ⟨function.program, site.offset⟩ site.callee)) site.name
        (operands.map Expr.type)) := by
  have searched := Overload.resolve_unkept.symm.trans resolved
  have declared : ∃ target, engine.code.Owns target ∧ target.callable = callee ∧
      target ∈ program.free ++ engine.code.publicFunctions := by
    rcases List.mem_append.mp (Overload.search_mem searched) with own | «public»
    · obtain ⟨target, free, viewed⟩ := covers.own callee own
      exact ⟨target, knows.consistent.own program loaded target (List.mem_filter.mp free).1, viewed,
        List.mem_append_left _ free⟩
    · split at «public»
      · obtain ⟨target, listed, viewed⟩ := covers.published callee «public»
        exact ⟨target, knows.consistent.published target listed, viewed,
          List.mem_append_right _ listed⟩
      · cases «public»
  obtain ⟨target, held, rfl, offered⟩ := declared
  have kept : world.callee ⟨function.program, site.offset⟩ site.callee = target.id := by
    exact ((Code.means_free bare).mp (remembers.means function owns _ among)).trans same.symm
  have found : (program.free ++ engine.code.publicFunctions).find? (fun other =>
      (Function.callable other).id = target.id) = some target := by
    cases found : (program.free ++ engine.code.publicFunctions).find? (fun other =>
        (Function.callable other).id = target.id) with
    | none => exact absurd (decide_eq_true rfl) (List.find?_eq_none.mp found target offered)
    | some other =>
        have identified : other.callable.id = target.id := by simpa using List.find?_some found
        rcases List.mem_append.mp (List.mem_of_find?_eq_some found) with own | «public»
        · rw [knows.owns_same (knows.consistent.own program loaded other
            (List.mem_filter.mp own).1) held identified]
        · rw [knows.owns_same (knows.consistent.published other «public») held identified]
  have goes : engine.code.resolveCall function.program (some target.id) site.name
      (operands.map Expr.type) = (.ok target, some target.id) := by
    unfold Code.resolveCall Overload.resolve
    rw [← named, Programs.get?_of_mem knows.programs loaded]
    simp only [Option.bind_some, found]
  rw [kept, goes]
  obtain ⟨_, cost, scored⟩ := (Overload.search_fits searched).grows covers.grows
  refine ⟨fun other id? chosen => ?_, by rintro _ _ ⟨⟩⟩
  cases chosen
  exact ⟨⟨⟨cost, scored⟩, DataType.specializes_refl _⟩,
    linked.keep knows remembers owns among ((Code.means_free bare).mpr same)⟩

theorem Code.Covers.compiled (covers : engine.code.Covers program names) {static : String}
    {types : List DataType} {callee : Callable}
    (resolved : names.resolveMethod static site.name types = .ok callee) :
    ∃ decl ∈ engine.code.classes.chain static, ∃ compiled : Function, compiled.callable = callee ∧
      compiled ∈ engine.code.programs.classMethods decl.name ∧
      Overload.Fits engine.code.classes.derives site.name types compiled.callable ∧
      ∀ found, Overload.search Function.callable engine.code.classes.derives site.name types
          (engine.code.programs.classMethods decl.name) = .ok found →
        found.program = compiled.program →
          (∀ method ∈ program.methods decl.name, method.program = program.id) →
            found = compiled := by
  obtain ⟨candidates, offered, searched⟩ := Overload.resolveAlong_searched resolved
  obtain ⟨decl, chained, rfl⟩ := List.mem_map.mp offered
  obtain ⟨earlier, later, visible, loaded, theirs, behind⟩ := covers.methods decl.name
  rw [visible] at searched
  obtain ⟨compiled, viewed, searched⟩ := Overload.search_map searched
  have known : names.classes.contains static = true :=
    (ClassTable.contains_of_derives (ClassTable.derives_iff.mpr ⟨decl, chained, rfl⟩)).1
  obtain ⟨called, cost, scored⟩ := Overload.search_fits searched
  rw [← Overload.search_grows covers.grows (Score.known_of_distance scored)] at searched
  refine ⟨decl, by rw [covers.grows static known]; exact chained, compiled, viewed, ?_,
    Overload.Fits.grows covers.grows ⟨called, cost, scored⟩, fun found again same ours => ?_⟩
  · rw [loaded]
    refine List.mem_append_left _ ?_
    exact List.mem_append.mpr (List.mem_append.mp (Overload.search_mem searched)).symm
  · rw [loaded] at again
    exact Overload.search_same_program searched again same ours theirs behind

theorem Code.Harmonious.replaces (harmonious : engine.code.Harmonious) (knows : engine.Knows known)
    (founded : ClassTable.Founded engine.code.classes.classes) {types : List DataType} {className : String}
    {before after : List ClassDecl} {here decl : ClassDecl} {method compiled : Function}
    (chained : engine.code.classes.chain className = before ++ here :: after)
    (behind : decl ∈ here :: after)
    (among : method ∈ engine.code.programs.classMethods here.name)
    (loaded : compiled ∈ engine.code.programs.classMethods decl.name)
    (fits : Overload.Fits engine.code.classes.derives site.name types method.callable)
    (also : Overload.Fits engine.code.classes.derives site.name types compiled.callable)
    (same : compiled.id = site.callee)
    (alike : here.name = decl.name → method.program = compiled.program → method = compiled) :
    engine.code.Replaces site types method where
  declared := ⟨here.name, among⟩
  fits := fits
  returns := by
    refine ⟨compiled, knows.owns_classMethod loaded, same, ?_⟩
    by_cases apart : here.name = decl.name ∧ method.program = compiled.program
    · rw [alike apart.1 apart.2]
      exact DataType.specializes_refl _
    · rw [not_and_or] at apart
      have derives := ClassTable.derives_behind founded chained behind
      have called : compiled.name = site.name := also.1
      refine harmonious here.name decl.name derives method among compiled loaded apart ⟨types, ?_⟩
      rw [called]
      exact ⟨fits, also⟩

/-- A call on an object goes to a method that it can mean. -/
theorem Code.Linked.method_found (linked : engine.code.Linked) (knows : engine.Knows known)
    (harmonious : engine.code.Harmonious)
    (founded : ClassTable.Founded engine.code.classes.classes)
    (remembers : engine.code.Remembers world) (owns : engine.code.Owns function)
    {receiver : Expr} (among : (site, receiver :: operands) ∈ function.calls)
    (loaded : program ∈ engine.code.programs) (covers : engine.code.Covers program names)
    {static className : String} {callee : Callable} (dispatches : site.hasReceiver = true)
    (resolved : names.resolveMethod static site.name (operands.map Expr.type) = .ok callee)
    (same : callee.id = site.callee)
    (meets : className = static ∨ engine.code.classes.derives className static = true) :
    typing.Found engine.code world ⟨function.program, site.offset⟩ (operands.map Expr.type)
      callee.returns (engine.code.resolveMethod className
        (some (world.callee ⟨function.program, site.offset⟩ site.callee)) site.name
        (operands.map Expr.type)) := by
  obtain ⟨decl, above, compiled, rfl, offered, fits, only⟩ := covers.compiled resolved
  have chained : decl ∈ engine.code.classes.chain className := by
    rcases meets with rfl | derives
    · exact above
    · obtain ⟨other, among, rfl⟩ := ClassTable.derives_iff.mp derives
      exact (ClassTable.ancestry_suffix founded among).subset above
  have ours : ∀ method ∈ program.methods decl.name, method.program = program.id :=
    fun method declared => knows.belongs program loaded method (List.mem_filter.mp declared).1
  obtain ⟨before, here, after, method, chain, behind, goes, declared, chosen⟩ :=
    @Overload.resolveAlong_of_search _ Function.callable engine.code.classes.derives site.name
      (operands.map Expr.type) _ (fun decl : ClassDecl => engine.code.programs.classMethods decl.name)
      (world.callee ⟨function.program, site.offset⟩ site.callee) decl _ none chained
      (Overload.search_of_fits offered fits)
  have replaces : engine.code.Replaces site (operands.map Expr.type) method := by
    rcases chosen with kept | searched
    · obtain ⟨other, identified, replaces⟩ :=
        (Code.means_method dispatches).mp (remembers.means function owns _ among)
      obtain ⟨holder, also⟩ := replaces.declared
      rwa [knows.identifies _ _ method declared other also (kept.trans identified.symm)]
    · refine harmonious.replaces knows founded chain behind declared offered
        (Overload.search_fits searched) fits same fun here? alike => ?_
      exact only method (here? ▸ searched) alike ours
  have goes : engine.code.resolveMethod className
      (some (world.callee ⟨function.program, site.offset⟩ site.callee)) site.name
      (operands.map Expr.type) = (.ok method, some method.id) := goes
  rw [goes]
  refine ⟨fun other id? found => ?_, by rintro _ _ ⟨⟩⟩
  cases found
  obtain ⟨_, cost, scored⟩ := replaces.fits
  obtain ⟨replaced, held, identified, returns⟩ := replaces.returns
  rw [knows.owns_same held (knows.owns_classMethod offered) (identified.trans same.symm)] at returns
  exact ⟨⟨⟨cost, scored⟩, returns⟩, linked.keep knows remembers owns among
    ((Code.means_method dispatches).mpr ⟨method, rfl, replaces⟩)⟩

end

structure Engine.Typed (engine : Engine) (known : List Function) : Prop extends engine.Knows known where
  founded : ClassTable.Founded engine.code.classes.classes
  linked : engine.code.Linked
  unambiguous : engine.code.classes.Unambiguous
  harmonious : engine.code.Harmonious

theorem Engine.Typed.governs (typed : engine.Typed known) :
    typing.Governs (engine.past known) engine.code where
  toFits := typed.fits
  lawful := typing_lawful
  founded := typed.founded
  member := by
    intro heap className fields field other members among also same value
    rw [typed.unambiguous className fields members field among other also same]
    exact ⟨id, id⟩
  compiled := by
    intro function owns
    obtain ⟨program, loaded, named, declared⟩ := typed.program_of_owns owns
    obtain ⟨names, body, covers⟩ := typed.linked.compiled program loaded function declared
    refine ⟨names, body, owns, covers.grows, ?_⟩
    rintro ⟨site, operands⟩ among type resolves
    cases resolves with
    | free dispatch resolved same =>
        have bare : site.hasReceiver = false := by
          dsimp only at dispatch
          simp [CallSite.hasReceiver, dispatch]
        refine ⟨fun world _ remembers => ?_, fun world static className dispatches => ?_⟩
        · exact typed.linked.free_found typed.toKnows remembers owns among loaded named covers bare
            resolved same
        · exact absurd bare (by simp [show site.hasReceiver = true from dispatches])
    | method classed dispatch resolved same =>
        have dispatches : site.hasReceiver = true := by
          rw [CallSite.hasReceiver, dispatch]
          unfold BodyParser.dispatchOn
          split <;> rfl
        refine ⟨fun world bare => ?_, fun world static className _ remembers given meets _ => ?_⟩
        · exact absurd (show site.hasReceiver = false from bare) (by simp [dispatches])
        · rw [List.map_cons, List.head?_cons, Option.bind_some, classed] at given
          cases given
          exact typed.linked.method_found typed.toKnows typed.harmonious typed.founded remembers owns
            among loaded covers dispatches resolved same meets
  calls := by
    intro program name types function id? resolved
    obtain ⟨_, cost, scored⟩ := Overload.search_fits
      (Overload.resolve_unkept.symm.trans (congrArg Prod.fst resolved))
    exact ⟨function.returns, ⟨cost, scored⟩, DataType.specializes_refl _⟩
  methods := by
    intro className name types function id? resolved
    obtain ⟨_, _, searched⟩ := Code.resolveMethod_searched (congrArg Prod.fst resolved)
    obtain ⟨_, cost, scored⟩ := Overload.search_fits searched
    exact ⟨function.returns, ⟨cost, scored⟩, DataType.specializes_refl _⟩

end

end ScriptEngine
