import ScriptEngine.Proofs.Watching
import ScriptEngine.Proofs.Underway
/-! Running code keeps a discipline up. Whatever a call meets, its world stays healthy, what it yields
are frames of a call under way, what it computes fits its static type, and it fails with nothing that
is barred. -/

namespace ScriptEngine

section

variable (disc : Discipline) (past : Past) (code : Code)

def Comes (part : Part) (good : Realm → Value → Prop) (world : World)
    (result : Progress Value × Machine) : Prop :=
  disc.Leads code world result.2.world ∧ match result.1 with
    | .done value => good (code.realm result.2.world) value
    | .suspended left => Underway disc past (code.realm result.2.world) part left
    | .failed error => ¬ disc.bars error.cause

def Reckons (expr : Expr) (slot : Nat) (world : World) (result : Progress Frame × Machine) : Prop :=
  disc.Leads code world result.2.world ∧ match result.1 with
    | .done frame => Reckoning disc past (code.realm result.2.world) expr slot frame
    | .suspended left => Underway disc past (code.realm result.2.world) (.expr expr) left
    | .failed error => ¬ disc.bars error.cause

def Executes (function : Function) (locals : Locals) (part : Part) (world : World)
    (result : Progress Completion × RunState) : Prop :=
  let realm := code.realm result.2.machine.world
  disc.Leads code world result.2.machine.world ∧ match result.1 with
    | .done .next => disc.Suits realm function (locals ++ part.locals) result.2.vars
    | .done (.return value) => disc.Stores realm function.returns value
    | .suspended left => Underway disc past realm part left ∧
        disc.Suits realm function (locals ++ part.reached left) result.2.vars
    | .failed error => ¬ disc.bars error.cause

structure Ready (invocation : Invocation) (frame : Frame) (world : World) : Prop where
  owns : code.Owns invocation.function
  healthy : disc.Healthy code world
  begun : (frame = {} ∧ disc.Takes (code.realm world) invocation.function invocation.args ∧
      ∀ owner handle, invocation.function.owner = some owner → invocation.receiver = some handle →
        (code.realm world).Refers handle owner) ∨
    Underway disc past (code.realm world) (.call invocation.function) frame

end

structure Sustains (disc : Discipline) (past : Past) (activation : Activation) : Prop
    extends disc.Governs past activation.code where
  call : ∀ invocation frame machine,
    Ready disc past activation.code invocation frame machine.world →
      Comes disc past activation.code (.call invocation.function)
        (fun realm value => disc.fits realm invocation.function.returns value) machine.world
        (activation.call invocation frame machine)

theorem DataType.accepts_mono {older newer : Hierarchy} {expected given : DataType}
    (grows : ∀ derived base, older derived base = true → newer derived base = true)
    (accepted : expected.accepts older given = true) : expected.accepts newer given = true := by
  simp only [DataType.accepts] at accepted ⊢
  split_ifs at accepted ⊢
  · rfl
  · exact accepted
  · split at accepted
    · exact accepted
    · exact grows _ _ accepted
    · cases accepted
    · rfl

namespace Code

theorem owner_of_resolveMethod {code : Code} {className : String}
    {kept found? : Option FunctionId} {name : String} {args : List DataType} {function : Function}
    (found : code.resolveMethod className kept name args = (.ok function, found?)) :
    ∃ holder, code.classes.derives className holder = true ∧
      function.signature.classBlock = some holder := by
  obtain ⟨candidates, offered, among⟩ := Overload.resolveAlong_mem found
  obtain ⟨decl, chained, rfl⟩ := List.mem_map.mp offered
  refine ⟨decl.name, ClassTable.derives_iff.mpr ⟨decl, chained, rfl⟩, ?_⟩
  obtain ⟨_, _, _, enclosed⟩ := Programs.mem_classMethods among
  exact enclosed

end Code

section

variable {disc : Discipline} {past : Past} {code : Code} {function : Function}
  {names : CallScope} {locals : Locals} {vars : Variables} {world : World}

namespace Discipline.Governs

theorem field? (governs : disc.Governs past code) (inside : disc.Inside code function names)
    (healthy : disc.Healthy code world)
    (suits : disc.Suits (code.realm world) function locals vars) {owner : String}
    {fields : Variables} {field : Variable} (owned : function.owner = some owner)
    (members : names.classes.members? owner = some fields) (among : field ∈ fields) :
    ∃ handle, vars.this? = some handle ∧ ∀ object, world.heap.get? handle = some object →
      ∃ held, object.field? field.name = some held ∧ held ∈ object.fields ∧ ∀ value,
        (disc.fits (code.realm world) held.type value →
          disc.fits (code.realm world) field.type value) ∧
        (disc.Stores (code.realm world) field.type value →
          disc.Stores (code.realm world) held.type value) := by
  obtain ⟨handle, bound, refers⟩ := (suits.hosts owner owned).this.this?
  refine ⟨handle, bound, fun object live => ?_⟩
  obtain ⟨held, all, other, found, there, templates, inherited, declared, named, typed⟩ :=
    (healthy.built.get? live).field? governs.founded (refers.derives live)
      (inside.grows.members? members) among
  refine ⟨held, found, there, fun value => ?_⟩
  rw [← typed]
  exact ⟨(governs.member templates declared inherited named.symm value).1,
    (governs.member templates inherited declared named value).2⟩

theorem readVariable (governs : disc.Governs past code) (inside : disc.Inside code function names)
    (healthy : disc.Healthy code world)
    (suits : disc.Suits (code.realm world) function locals vars) {target : Target}
    {type : DataType} (named : (function.surroundings names).Names locals target type)
    (span : Span) :
    disc.Evaluates (code.realm world) (.var type span target)
      (Evaluation.readVariable world.heap vars target span) := by
  have points : ∀ {name className}, vars.Points (code.realm world) name className →
      disc.Evaluates (code.realm world) (.var (.object className) span (.reserved name))
        (Evaluation.readVariable world.heap vars (.reserved name) span) := by
    rintro name className ⟨var, handle, found, held, refers⟩
    simp only [Evaluation.readVariable, found, held]
    refine ⟨governs.lawful.refers refers, fun other same => ⟨handle, rfl, ?_⟩⟩
    cases same
    exact refers
  cases named with
  | «local» placed =>
      obtain ⟨var, found, rfl⟩ := suits.declares.find? placed
      simp only [Evaluation.readVariable, found]
      refine ⟨suits.fits var ?_, by rintro _ ⟨⟩⟩
      rw [Variables.find?, if_neg Binding.noConfusion] at found
      exact List.mem_of_find?_eq_some found
  | this owned => exact points (suits.hosts _ owned).this
  | super owned parent =>
      obtain ⟨decl, known, _⟩ := Option.bind_eq_some_iff.mp parent
      have contained := congrArg Option.isSome known
      exact points ((suits.hosts _ owned).super _ ((inside.grows.parent? contained).trans parent))
  | member owned members among =>
      obtain ⟨handle, bound, fields⟩ := governs.field? inside healthy suits owned members among
      simp only [Evaluation.readVariable, bound]
      cases live : world.heap.get? handle with
      | none => exact governs.lawful.spares rfl
      | some object =>
          obtain ⟨held, found, there, alike⟩ := fields object live
          simp only [found]
          exact ⟨(alike _).1 (healthy.fields.get? live held there), by rintro _ ⟨⟩⟩

theorem writeVariable (governs : disc.Governs past code) (inside : disc.Inside code function names)
    (healthy : disc.Healthy code world)
    (suits : disc.Suits (code.realm world) function locals vars) {target : Target}
    {type : DataType} (named : (function.surroundings names).Names locals target type)
    (settable : ∀ name, target ≠ .reserved name) {value : Value}
    (stores : disc.Stores (code.realm world) type value) (span : Span) :
    match Evaluation.writeVariable world.heap vars target value span with
    | .ok (heap, written) => disc.Leads code world { world with heap } ∧
        disc.Suits (code.realm { world with heap }) function locals written
    | .error error => ¬ disc.bars error.cause := by
  cases named with
  | «local» placed =>
      obtain ⟨var, found, rfl⟩ := suits.declares.find? placed
      simp only [Evaluation.writeVariable, found, Evaluation.convert]
      unfold Discipline.Stores at stores
      cases converted : value.convert? var.type with
      | none =>
          rw [converted] at stores
          exact stores
      | some stored =>
          rw [converted] at stores
          exact ⟨.refl healthy, suits.update found stores⟩
  | this | super => exact absurd rfl (settable _)
  | member owned members among =>
      obtain ⟨handle, bound, fields⟩ := governs.field? inside healthy suits owned members among
      simp only [Evaluation.writeVariable, bound]
      cases live : world.heap.get? handle with
      | none => exact governs.lawful.spares rfl
      | some object =>
          obtain ⟨held, found, there, alike⟩ := fields object live
          have stores := (alike value).2 stores
          simp only [found, Evaluation.convert]
          unfold Discipline.Stores at stores
          cases converted : value.convert? held.type with
          | none =>
              rw [converted] at stores
              exact stores
          | some stored =>
              rw [converted] at stores
              have leads := healthy.store governs.lawful live found stores
              exact ⟨leads, suits.later governs.lawful leads.realm⟩

end Discipline.Governs

theorem Discipline.Governs.receiver (governs : disc.Governs past code)
    (healthy : disc.Healthy code world) {site : CallSite} {receiver : Expr} {value : Value}
    {more : List Value} {static className : String} {handle : Handle}
    (yields : disc.Yields (code.realm world) receiver value)
    (classed : receiver.type.className? = some static)
    (dispatch : site.dispatch = BodyParser.dispatchOn receiver static)
    (given : Evaluation.receiver world.heap site (value :: more) = .ok (handle, className)) :
    disc.meets code.classes className static ∧
      (∀ fixed, site.dispatch = .ofClass fixed → className = fixed) ∧
        (code.realm world).Refers handle className := by
  unfold Evaluation.receiver at given
  split at given
  · cases given
  · rename_i found head
    obtain rfl : value = .object found := by
      cases value <;> simp [Value.asObject?] at head ⊢
      exact head
    have dynamic : site.dispatch = .receiver → disc.meets code.classes className static ∧
        (∀ fixed, site.dispatch = .ofClass fixed → className = fixed) ∧
          (code.realm world).Refers handle className := by
      intro receives
      rw [receives] at given
      dsimp only at given
      split at given
      · rename_i object live
        cases given
        have contained := (healthy.built.get? live).contains
        refine ⟨governs.lawful.met yields.fits classed live, fun fixed other => ?_,
          .of_live live (ClassTable.derives_refl contained)⟩
        rw [receives] at other
        cases other
      · cases given
    unfold BodyParser.dispatchOn at dispatch
    split at dispatch
    · rw [dispatch] at given
      cases given
      obtain ⟨handle, same, refers⟩ := yields.points static classed
      cases same
      refine ⟨governs.lawful.meets_refl _ _, fun fixed same => ?_, refers⟩
      rw [dispatch] at same
      exact Dispatch.ofClass.inj same
    · exact dynamic dispatch

end

section

variable {disc : Discipline} {past : Past} {activation : Activation}

theorem operand_reckons {code : Code} {expr operand : Expr} {slot : Nat} (lawful : disc.Lawful)
    (placed : expr.operands[slot]? = some operand)
    {evaluate : Frame → Machine → Progress Value × Machine} {frame : Frame} {machine : Machine}
    (evaluated : ∀ child, Begun disc past (code.realm machine.world) (.expr operand) child →
      Comes disc past code (.expr operand) (fun realm value => disc.Yields realm operand value)
        machine.world (evaluate child machine))
    (healthy : disc.Healthy code machine.world)
    (reckoning : Reckoning disc past (code.realm machine.world) expr slot frame) :
    Reckons disc past code expr (slot + 1) machine.world
      (Evaluation.operand slot evaluate frame machine) := by
  unfold Evaluation.operand
  by_cases passed : slot < frame.temps.length
  · rw [if_pos passed]
    refine ⟨.refl healthy, ?_⟩
    cases reckoning with
    | reached counted => exact absurd passed (by simp [counted])
    | ahead underway => exact .ahead underway passed
  · rw [if_neg passed]
    obtain ⟨evaluating, bare, counted, single, computed, begun⟩ := reckoning.due placed passed
    obtain ⟨state, vars, temps, children⟩ := frame
    dsimp only at evaluating bare counted computed
    subst evaluating bare
    have reached := evaluated _ begun
    generalize evaluate (Frame.child ⟨.eval, [], temps, children⟩ slot) machine = ended at reached ⊢
    obtain ⟨progress, after⟩ := ended
    obtain ⟨leads, reached⟩ := reached
    have computed := computed.later lawful leads.realm
    subst counted
    cases progress with
    | failed error => exact ⟨leads, reached⟩
    | done value =>
        simp only [single.removed]
        exact ⟨leads, .reached (by simp) (computed.concat placed reached)⟩
    | suspended child =>
        simp only [single.placed]
        exact ⟨leads, .operand placed computed reached⟩

/-- A callee that was resolved for the call of a site, with the arguments and the object that it is to
be called with. -/
structure Chosen (disc : Discipline) (code : Code) (world : World) (site : SiteId) (type : DataType)
    (child : Frame) (callee : Evaluation.Callee) (receiver : Option Handle) (args : Variables) :
    Prop where
  resolved : ∃ types resolved, callee = Evaluation.callee code child none resolved ∧
    disc.Found code world site types type resolved ∧
      ∀ function id?, resolved = (.ok function, id?) → code.Owns function ∧
        disc.Takes (code.realm world) function args ∧
          ∀ owner handle, function.owner = some owner → receiver = some handle →
            (code.realm world).Refers handle owner

theorem Chosen.ready {code : Code} {world : World} {site : SiteId} {type : DataType} {child : Frame}
    {receiver : Option Handle} {args : Variables} {function : Function} {kept : Option FunctionId}
    (chosen : Chosen disc code world site type child (.found function kept) receiver args)
    (governs : disc.Governs past code) (healthy : disc.Healthy code world)
    (calling : Calling disc past (code.realm world) type child) (span : Option Span)
    (caller : ProgramId) :
    disc.Gives (code.realm world) function type ∧
      disc.Leads code world (world.keepCallee site kept) ∧
      Ready disc past code ⟨function, receiver, args, span, caller⟩ child
        (world.keepCallee site kept) := by
  obtain ⟨types, resolved, chosen, found, usable⟩ := chosen
  cases calling with
  | fresh =>
      obtain ⟨result, id?⟩ := resolved
      cases result with
      | error cause => cases chosen
      | ok resolved =>
          cases chosen
          obtain ⟨answers, remembers⟩ := found.answers _ _ rfl
          obtain ⟨owns, takes, refers⟩ := usable _ _ rfl
          have leads := healthy.keepCallee remembers
          have realm : code.realm (world.keepCallee site kept) = code.realm world := by
            cases kept <;> rfl
          refine ⟨fun _ _ => governs.lawful.returned answers, leads, owns, leads.healthy,
            Or.inl ⟨rfl, ?_, ?_⟩⟩
          · rw [realm]
            exact takes
          · rw [realm]
            exact refers
  | going gives underway =>
      obtain ⟨among, step, held⟩ := underway.call_held
      simp only [Evaluation.callee, Frame.call?, held] at chosen
      split at chosen
      · rename_i loaded
        cases chosen
        obtain rfl := governs.same _ among function loaded
        exact ⟨gives, .refl healthy, loaded, healthy, Or.inr underway⟩
      · cases chosen
  | lost lost =>
      obtain ⟨call, held, gone⟩ := lost
      have missing := governs.gone _ _ gone
      simp only [Evaluation.callee, Frame.call?, held, missing] at chosen
      cases chosen

theorem Chosen.notFound {code : Code} {world : World} {site : SiteId} {type : DataType}
    {child : Frame} {receiver : Option Handle} {args : Variables} {cause : CompileCause}
    (chosen : Chosen disc code world site type child (.notFound cause) receiver args) :
    ¬ disc.bars .undefinedCall := by
  obtain ⟨types, ⟨result, id?⟩, chosen, found, _⟩ := chosen
  unfold Evaluation.callee at chosen
  cases result with
  | error cause => exact found.fails _ _ rfl
  | ok function =>
      split at chosen
      · split at chosen <;> cases chosen
      · cases chosen

theorem enterSite_comes (sustains : Sustains disc past activation) {type : DataType} {span : Span}
    {site : CallSite} {operands : List Expr} {frame : Frame} {machine : Machine}
    (healthy : disc.Healthy activation.code machine.world)
    (reckoning : Reckoning disc past (activation.code.realm machine.world)
      (.call type span site operands) operands.length frame)
    {callee : Evaluation.Callee} {receiver : Option Handle} {args : Variables}
    (chosen : Chosen disc activation.code machine.world ⟨activation.program, site.offset⟩ type
      (frame.child operands.length) callee receiver args) :
    Comes disc past activation.code (.expr (.call type span site operands))
      (fun realm value => disc.Yields realm (.call type span site operands) value) machine.world
      (Evaluation.enterSite activation site operands.length callee receiver args frame machine) := by
  obtain ⟨counted, computed⟩ := reckoning.computed rfl
  obtain ⟨evaluating, bare, single, calling⟩ := reckoning.calling
  obtain ⟨state, vars, temps, children⟩ := frame
  dsimp only [Expr.operands] at evaluating bare counted computed
  subst evaluating bare
  cases callee with
  | gone => exact ⟨.refl healthy, sustains.lawful.spares rfl⟩
  | notFound cause => exact ⟨.refl healthy, chosen.notFound⟩
  | found function kept =>
      obtain ⟨gives, leads, ready⟩ := chosen.ready sustains.toGoverns healthy calling
        (some site.span) activation.program
      simp only [Evaluation.enterSite]
      have reached := sustains.call _ _ { machine with
        world := machine.world.keepCallee ⟨activation.program, site.offset⟩ kept } ready
      generalize activation.call _ _ _ = ended at reached ⊢
      obtain ⟨progress, after⟩ := ended
      obtain ⟨further, reached⟩ := reached
      have leads := leads.trans further
      cases progress with
      | failed error => exact ⟨leads, reached⟩
      | done value => exact ⟨leads, gives _ _ (.refl _) sustains.founded reached, by rintro _ ⟨⟩⟩
      | suspended left =>
          have called := @Underway.callee _ _ _ type span site operands _ _ _ counted
            (computed.later sustains.lawful leads.realm) (gives.later leads.realm) reached
          rw [counted] at called
          simp only [single.placed]
          exact ⟨leads, called⟩

section

variable {function : Function} {names : CallScope}

theorem choose_chosen (governs : disc.Governs past activation.code)
    (here : activation.program = function.program)
    (inside : disc.Inside activation.code function names) {type : DataType} {span : Span}
    {site : CallSite} {operands : List Expr} {frame : Frame} {machine : Machine}
    (resolves : names.Resolves type site operands) (among : (site, operands) ∈ function.calls)
    (healthy : disc.Healthy activation.code machine.world)
    (reckoning : Reckoning disc past (activation.code.realm machine.world)
      (.call type span site operands) operands.length frame) :
    match Evaluation.choose activation site (operands.map Expr.type) frame machine with
    | .error error => ¬ disc.bars error.cause
    | .ok (callee, receiver, args) => Chosen disc activation.code machine.world
        ⟨activation.program, site.offset⟩ type (frame.child operands.length) callee receiver args := by
  have sites := inside.sites _ among type resolves
  obtain ⟨counted, computed⟩ := reckoning.computed rfl
  rw [Expr.operands] at counted computed
  rw [← here] at sites
  unfold Evaluation.choose
  simp only [List.length_map]
  cases resolves with
  | free dispatch =>
      have bare : site.hasReceiver = false := by simp [CallSite.hasReceiver, dispatch]
      rw [if_neg (by simp [bare])]
      have found := sites.free machine.world bare healthy.remembers
      refine ⟨_, _, rfl, found, fun called id? resolved => ?_⟩
      refine ⟨governs.consistent.resolveCall resolved, ?_, by rintro _ _ _ ⟨⟩⟩
      exact governs.lawful.bound governs.founded (found.answers called id? resolved).1
        (by simpa using counted) computed.fits
  | @method _ receiver args static callee classed dispatch =>
      have receives : site.hasReceiver = true := by
        rw [CallSite.hasReceiver, dispatch]
        unfold BodyParser.dispatchOn
        split <;> rfl
      rw [if_pos receives]
      obtain ⟨value, more, same⟩ : ∃ value more, frame.temps = value :: more :=
        List.exists_cons_of_length_eq_add_one counted
      rw [same] at counted computed
      obtain ⟨yields, computed⟩ := computed.tail
      cases given : Evaluation.receiver machine.world.heap site frame.temps with
      | error error =>
          unfold Evaluation.receiver at given
          split at given
          · cases given
            exact governs.lawful.spares rfl
          · split at given
            · cases given
            · split at given
              · cases given
              · cases given
                exact governs.lawful.spares rfl
      | ok found =>
          obtain ⟨handle, className⟩ := found
          rw [same] at given
          obtain ⟨meets, looks, refers⟩ := governs.receiver healthy yields classed dispatch given
          have found := sites.method machine.world static className receives healthy.remembers
            (by simpa using classed) meets looks
          refine ⟨_, _, rfl, found, fun called id? resolved => ?_⟩
          have owns := governs.consistent.resolveMethod resolved
          refine ⟨owns, ?_, fun owner other owned given => ?_⟩
          · refine governs.lawful.bound governs.founded (found.answers called id? resolved).1 ?_ ?_
            · simpa [same] using counted
            · rw [same]
              exact computed.fits
          · cases given
            obtain ⟨holder, derives, enclosed⟩ := Code.owner_of_resolveMethod resolved
            have own := (governs.coherent called (governs.owned called owns)).enclosed holder
              enclosed
            rw [owned] at own
            cases own
            exact refers.base governs.founded derives

theorem callSite_comes (sustains : Sustains disc past activation)
    (here : activation.program = function.program)
    (inside : disc.Inside activation.code function names) {type : DataType} {span : Span}
    {site : CallSite} {operands : List Expr} {frame : Frame} {machine : Machine}
    (resolves : names.Resolves type site operands) (among : (site, operands) ∈ function.calls)
    (healthy : disc.Healthy activation.code machine.world)
    (reckoning : Reckoning disc past (activation.code.realm machine.world)
      (.call type span site operands) operands.length frame) :
    Comes disc past activation.code (.expr (.call type span site operands))
      (fun realm value => disc.Yields realm (.call type span site operands) value) machine.world
      (Evaluation.callSite activation site (operands.map Expr.type) frame machine) := by
  have chosen := choose_chosen sustains.toGoverns here inside resolves among healthy reckoning
  rw [Evaluation.callSite_eq]
  generalize Evaluation.choose _ _ _ _ _ = choice at chosen ⊢
  cases choice with
  | error error => exact ⟨.refl healthy, chosen⟩
  | ok choice =>
      simp only [List.length_map]
      exact enterSite_comes sustains healthy reckoning chosen

variable {locals : Locals}

mutual

theorem evalExpr_comes (sustains : Sustains disc past activation)
    (here : activation.program = function.program)
    (inside : disc.Inside activation.code function names) {vars : Variables} :
    ∀ (expr : Expr) {frame : Frame} {machine : Machine},
      expr.Typed (function.surroundings names) locals → expr.calls ⊆ function.calls →
      disc.Healthy activation.code machine.world →
      disc.Suits (activation.code.realm machine.world) function locals vars →
      Begun disc past (activation.code.realm machine.world) (.expr expr) frame →
        Comes disc past activation.code (.expr expr)
          (fun realm value => disc.Yields realm expr value) machine.world
          (Evaluation.evalExpr activation vars expr frame machine)
  | .literal type span value, frame, machine, typed, _, healthy, _, _ => by
      obtain ⟨plain, written, converted⟩ := typed
      rw [Evaluation.evalExpr]
      exact ⟨.refl healthy, sustains.lawful.literal plain converted, nofun⟩
  | .var type span target, frame, machine, typed, _, healthy, suits, _ => by
      have reached := sustains.toGoverns.readVariable inside healthy suits typed span
      rw [Evaluation.evalExpr]
      generalize Evaluation.readVariable _ _ _ _ = result at reached ⊢
      cases result <;> exact ⟨.refl healthy, reached⟩
  | .negate type span inner, frame, machine, typed, sites, healthy, suits, begun => by
      obtain ⟨typed, numeric, rfl⟩ := typed
      have placed : (Expr.negate (inner.type.promote inner.type) span inner).operands[0]? =
        some inner := rfl
      have reached := operand_reckons sustains.lawful placed
        (fun child => evalExpr_comes sustains here inside inner typed sites healthy suits)
        healthy begun.reckoning
      rw [Evaluation.evalExpr]
      generalize Evaluation.operand _ _ _ _ = ended at reached ⊢
      obtain ⟨progress, after⟩ := ended
      obtain ⟨leads, reached⟩ := reached
      cases progress with
      | failed error => exact ⟨leads, reached⟩
      | suspended left => exact ⟨leads, reached⟩
      | done finished =>
          obtain ⟨counted, computed⟩ := reached.computed rfl
          obtain ⟨value, only⟩ := List.length_eq_one_iff.mp counted
          rw [only] at computed
          have passes := @Discipline.Lawful.negated _ sustains.lawful _ _ _ span numeric
            (computed.tail).1.fits
          simp only [only, List.getLast?_singleton, Option.getD_some]
          generalize Evaluation.negate _ _ _ = result at passes ⊢
          cases result with
          | error error => exact ⟨leads, passes⟩
          | ok value => exact ⟨leads, passes, nofun⟩
  | .binary type span operator left right, frame, machine, typed, sites, healthy, suits, begun => by
      obtain ⟨before, behind, gives⟩ := typed
      rw [Expr.calls, List.append_subset] at sites
      have one : (Expr.binary type span operator left right).operands[0]? = some left := rfl
      have two : (Expr.binary type span operator left right).operands[1]? = some right := rfl
      have first := operand_reckons sustains.lawful one
        (fun child => evalExpr_comes sustains here inside left before sites.1 healthy suits)
        healthy begun.reckoning
      rw [Evaluation.evalExpr]
      generalize Evaluation.operand 0 _ _ _ = ended at first ⊢
      obtain ⟨progress, between⟩ := ended
      obtain ⟨leads, first⟩ := first
      cases progress with
      | failed error => exact ⟨leads, first⟩
      | suspended left => exact ⟨leads, first⟩
      | done middle =>
          have second := operand_reckons sustains.lawful two
            (fun child => evalExpr_comes sustains here inside right behind sites.2 leads.healthy
              (suits.later sustains.lawful leads.realm)) leads.healthy first
          dsimp only
          generalize Evaluation.operand 1 _ _ _ = ended at second ⊢
          obtain ⟨progress, after⟩ := ended
          obtain ⟨further, second⟩ := second
          have leads := leads.trans further
          cases progress with
          | failed error => exact ⟨leads, second⟩
          | suspended left => exact ⟨leads, second⟩
          | done finished =>
              obtain ⟨counted, computed⟩ := second.computed rfl
              obtain ⟨first, second, both⟩ := List.length_eq_two.mp counted
              rw [both] at computed
              have passes := @Discipline.Lawful.operated _ sustains.lawful _ _ _ _ _ _ _ span gives
                computed.tail.1.fits computed.tail.2.tail.1.fits
              simp only [both]
              generalize Evaluation.operate _ _ _ _ _ _ = result at passes ⊢
              cases result with
              | error error => exact ⟨leads, passes⟩
              | ok value => exact ⟨leads, passes, nofun⟩
  | .call type span site operands, frame, machine, typed, sites, healthy, suits, begun => by
      obtain ⟨typed, resolves⟩ := typed
      rw [Expr.calls, List.cons_subset] at sites
      have reached := evalOperands_reckons sustains here inside (.call type span site operands)
        operands [] rfl typed sites.2 healthy suits begun.reckoning
      rw [Evaluation.evalExpr]
      generalize Evaluation.evalOperands _ _ _ _ _ _ = ended at reached ⊢
      obtain ⟨progress, after⟩ := ended
      obtain ⟨leads, reached⟩ := reached
      cases progress with
      | failed error => exact ⟨leads, reached⟩
      | suspended left => exact ⟨leads, reached⟩
      | done finished =>
          obtain ⟨further, called⟩ :=
            callSite_comes sustains here inside resolves sites.1 leads.healthy reached
          exact ⟨leads.trans further, called⟩

theorem evalOperands_reckons (sustains : Sustains disc past activation)
    (here : activation.program = function.program)
    (inside : disc.Inside activation.code function names) {vars : Variables} (expr : Expr) :
    ∀ (operands before : List Expr), before ++ operands = expr.operands →
      ∀ {frame : Frame} {machine : Machine},
        Expr.TypedIn (function.surroundings names) locals operands →
        Expr.callsIn operands ⊆ function.calls → disc.Healthy activation.code machine.world →
        disc.Suits (activation.code.realm machine.world) function locals vars →
        Reckoning disc past (activation.code.realm machine.world) expr before.length frame →
          Reckons disc past activation.code expr expr.operands.length machine.world
            (Evaluation.evalOperands activation vars before.length operands frame machine)
  | [], before, whole, frame, machine, _, _, healthy, _, reckoning => by
      rw [Evaluation.evalOperands, ← whole, List.append_nil]
      exact ⟨.refl healthy, reckoning⟩
  | first :: rest, before, whole, frame, machine, typed, sites, healthy, suits, reckoning => by
      obtain ⟨typed, others⟩ := typed
      rw [Expr.callsIn, List.append_subset] at sites
      have placed : expr.operands[before.length]? = some first := by
        rw [← whole, List.getElem?_append_right (Nat.le_refl _), Nat.sub_self]
        rfl
      have reached := operand_reckons sustains.lawful placed
        (fun child => evalExpr_comes sustains here inside first typed sites.1 healthy suits)
        healthy reckoning
      rw [Evaluation.evalOperands]
      generalize Evaluation.operand _ _ _ _ = ended at reached ⊢
      obtain ⟨progress, after⟩ := ended
      obtain ⟨leads, reached⟩ := reached
      cases progress with
      | failed error => exact ⟨leads, reached⟩
      | suspended left => exact ⟨leads, reached⟩
      | done middle =>
          have longer : (before ++ [first]).length = before.length + 1 := by simp
          have behind := evalOperands_reckons sustains here inside expr rest (before ++ [first])
            (by simpa using whole) others sites.2 leads.healthy
            (suits.later sustains.lawful leads.realm) (longer ▸ reached)
          rw [longer] at behind
          exact ⟨leads.trans behind.1, behind.2⟩

end

theorem evalThen_executes (sustains : Sustains disc past activation)
    (here : activation.program = function.program)
    (inside : disc.Inside activation.code function names) {stmt : Stmt} {expr : Expr}
    (computes : stmt.value? = some expr) (typed : expr.Typed (function.surroundings names) locals)
    (sites : expr.calls ⊆ function.calls) {frame : Frame} {state : RunState}
    (healthy : disc.Healthy activation.code state.machine.world)
    (suits : disc.Suits (activation.code.realm state.machine.world) function locals state.vars)
    (begun : Begun disc past (activation.code.realm state.machine.world) (.expr expr) frame)
    {continueWith : Value → RunState → Progress Completion × RunState}
    (continued : ∀ value machine, disc.Healthy activation.code machine.world →
      disc.Suits (activation.code.realm machine.world) function locals state.vars →
      disc.Yields (activation.code.realm machine.world) expr value →
        Executes disc past activation.code function locals (.stmt stmt) machine.world
          (continueWith value { state with machine })) :
    Executes disc past activation.code function locals (.stmt stmt) state.machine.world
      (Evaluation.evalThen activation expr frame state continueWith) := by
  have reached := evalExpr_comes sustains here inside expr typed sites healthy suits begun
  unfold Evaluation.evalThen
  generalize Evaluation.evalExpr _ _ _ _ _ = ended at reached ⊢
  obtain ⟨progress, after⟩ := ended
  obtain ⟨leads, reached⟩ := reached
  have suits := suits.later sustains.lawful leads.realm
  cases progress with
  | failed error => exact ⟨leads, reached⟩
  | suspended left =>
      refine ⟨leads, .value computes reached, ?_⟩
      rw [Part.reached, Stmt.reached_of_value computes, List.append_nil]
      exact suits
  | done value =>
      have next := continued value after leads.healthy suits reached
      exact ⟨leads.trans next.1, next.2⟩

theorem waitStep_executes {code : Code} {span : Span} {count : Expr} {frame : Frame}
    {state : RunState} (healthy : disc.Healthy code state.machine.world)
    (suits : disc.Suits (code.realm state.machine.world) function locals state.vars)
    (bare : frame = { state := frame.state }) (remaining : Nat) :
    Executes disc past code function locals (.stmt (.wait span count)) state.machine.world
      (Evaluation.waitStep frame state remaining) := by
  refine ⟨by cases remaining <;> exact .refl healthy, ?_⟩
  have same : locals ++ [] = locals := List.append_nil locals
  cases remaining with
  | zero =>
      rw [← same] at suits
      exact suits
  | succ remaining =>
      rw [bare]
      refine ⟨.waiting, ?_⟩
      rw [← same] at suits
      exact suits

theorem declare_executes {code : Code} {span : Span} {id : VarId} {name : String}
    {type : DataType} {init : Option Expr} {var : Variable} {state : RunState}
    (healthy : disc.Healthy code state.machine.world)
    (suits : disc.Suits (code.realm state.machine.world) function locals state.vars)
    (counted : id.number = locals.length) (named : var.name = name) (typed : var.type = type)
    (fits : disc.fits (code.realm state.machine.world) type var.value) :
    Executes disc past code function locals (.stmt (.declare span id name type init))
      state.machine.world (Evaluation.declare id var state) := by
  subst named typed
  have same : id = ⟨locals.length⟩ := congrArg VarId.mk counted
  exact ⟨.refl healthy, @Discipline.Suits.concat _ _ _ _ _ suits (var.bind (.var id))
    (congrArg Binding.var same) fits⟩

variable {activation : Activation}

mutual

theorem execStmt_executes (sustains : Sustains disc past activation)
    (here : activation.program = function.program)
    (inside : disc.Inside activation.code function names) :
    ∀ (stmt : Stmt) {locals : Locals} {frame : Frame} {state : RunState},
      stmt.Typed (function.surroundings names) locals → stmt.calls ⊆ function.calls →
      disc.Healthy activation.code state.machine.world →
      disc.Suits (activation.code.realm state.machine.world) function
        (locals ++ stmt.reached frame) state.vars →
      Begun disc past (activation.code.realm state.machine.world) (.stmt stmt) frame →
        Executes disc past activation.code function locals (.stmt stmt) state.machine.world
          (Evaluation.execStmt activation stmt frame state)
  | .block span body, locals, frame, state, typed, sites, healthy, suits, begun => by
      obtain ⟨stepping, same⟩ := begun.block.stepping
      rw [Stmt.reached, ← same] at suits
      have reached := execStmts_executes sustains here inside body body [] rfl
        (by rw [Stmt.localsIn, List.append_nil]; exact typed) sites healthy suits stepping
      rw [Evaluation.execStmt]
      generalize Evaluation.execStmts _ _ _ _ _ = ended at reached ⊢
      obtain ⟨progress, after⟩ := ended
      obtain ⟨leads, reached⟩ := reached
      cases progress with
      | done completion => cases completion <;> exact ⟨leads, reached⟩
      | failed error => exact ⟨leads, reached⟩
      | suspended left => exact ⟨leads, .nested reached.1, reached.2⟩
  | .return _ none, locals, frame, state, typed, _, healthy, _, _ => by
      rw [Evaluation.execStmt]
      exact ⟨.refl healthy, sustains.lawful.void typed⟩
  | .return _ (some expr), locals, frame, state, typed, sites, healthy, suits, begun => by
      rw [Stmt.reached, List.append_nil] at suits
      rw [Evaluation.execStmt]
      refine evalThen_executes sustains here inside rfl typed.1 sites healthy suits
        (begun.value rfl (Or.inl fun _ _ => Stmt.noConfusion)) fun value machine later _ yields => ?_
      have accepted := DataType.accepts_mono (fun _ _ => inside.grows.derives) typed.2
      exact ⟨.refl later, sustains.lawful.stored sustains.founded accepted yields.fits⟩
  | .wait span count, locals, frame, state, typed, sites, healthy, suits, begun => by
      obtain ⟨cleared, bare⟩ := begun.bare
      rw [Stmt.reached, List.append_nil] at suits
      rw [Evaluation.execStmt]
      split
      · rename_i remaining waiting
        exact waitStep_executes healthy suits (bare _ waiting) remaining
      · rename_i starts
        have value := begun.value rfl (Or.inr fun remaining waiting => starts remaining waiting)
        refine evalThen_executes sustains here inside rfl typed.1 sites healthy suits value
          fun value machine later suits _ => ?_
        let state : RunState := { state with machine }
        have later : disc.Healthy activation.code state.machine.world := later
        exact waitStep_executes later suits cleared value.waitCount
  | .declare span id name type none, locals, frame, state, typed, _, healthy, suits, _ => by
      rw [Stmt.reached, List.append_nil] at suits
      rw [Evaluation.execStmt]
      exact declare_executes healthy suits typed.1 rfl rfl sustains.lawful.default
  | .declare span id name type (some expr), locals, frame, state, typed, sites, healthy, suits,
      begun => by
      obtain ⟨counted, assigned⟩ := typed
      obtain ⟨typed, accepted⟩ := assigned expr rfl
      rw [Stmt.reached, List.append_nil] at suits
      rw [Evaluation.execStmt]
      refine evalThen_executes sustains here inside rfl typed sites healthy suits
        (begun.value rfl (Or.inl fun _ _ => Stmt.noConfusion))
        fun value machine later suits yields => ?_
      have stores := sustains.lawful.stored sustains.founded
        (DataType.accepts_mono (fun _ _ => inside.grows.derives) accepted) yields.fits
      simp only [Evaluation.convert]
      unfold Discipline.Stores at stores
      cases converted : value.convert? type with
      | none =>
          rw [converted] at stores
          exact ⟨.refl later, stores⟩
      | some stored =>
          rw [converted] at stores
          let state : RunState := { state with machine }
          have later : disc.Healthy activation.code state.machine.world := later
          let var := Variable.holding name type stored
          exact declare_executes later suits counted (rfl : var.name = name) rfl stores
  | .assign span target expr, locals, frame, state, typed, sites, healthy, suits, begun => by
      obtain ⟨settable, type, named, typed, accepted⟩ := typed
      rw [Stmt.reached, List.append_nil] at suits
      rw [Evaluation.execStmt]
      refine evalThen_executes sustains here inside rfl typed sites healthy suits
        (begun.value rfl (Or.inl fun _ _ => Stmt.noConfusion))
        fun value machine later suits yields => ?_
      have stores := sustains.lawful.stored sustains.founded
        (DataType.accepts_mono (fun _ _ => inside.grows.derives) accepted) yields.fits
      have written := sustains.toGoverns.writeVariable inside later suits named settable stores span
      unfold Evaluation.assign
      dsimp only
      generalize Evaluation.writeVariable _ _ _ _ _ = result at written ⊢
      cases result with
      | error error => exact ⟨.refl later, written⟩
      | ok changed =>
          refine ⟨written.1, ?_⟩
          rw [Part.locals, Stmt.locals, List.append_nil]
          exact written.2
  | .expr expr, locals, frame, state, typed, sites, healthy, suits, begun => by
      rw [Stmt.reached, List.append_nil] at suits
      rw [Evaluation.execStmt]
      refine evalThen_executes sustains here inside rfl typed sites healthy suits
        (begun.value rfl (Or.inl fun _ _ => Stmt.noConfusion))
        fun value machine later suits _ => ⟨.refl later, ?_⟩
      rw [Part.locals, Stmt.locals, List.append_nil]
      exact suits

theorem execStmts_executes (sustains : Sustains disc past activation)
    (here : activation.program = function.program)
    (inside : disc.Inside activation.code function names) (whole : List Stmt) :
    ∀ (stmts before : List Stmt), before ++ stmts = whole →
      ∀ {locals : Locals} {frame : Frame} {state : RunState},
        Stmt.TypedIn (function.surroundings names) (locals ++ Stmt.localsIn before) stmts →
        Stmt.callsIn stmts ⊆ function.calls →
        disc.Healthy activation.code state.machine.world →
        disc.Suits (activation.code.realm state.machine.world) function
          (locals ++ Stmt.reachedIn 0 whole frame) state.vars →
        Stepping disc past (activation.code.realm state.machine.world) whole before.length frame →
          Executes disc past activation.code function locals (.block whole) state.machine.world
            (Evaluation.execStmts activation before.length stmts frame state)
  | [], before, same, locals, frame, state, _, _, healthy, suits, stepping => by
      rw [List.append_nil] at same
      subst same
      obtain rfl := stepping.ended (Nat.le_refl _)
      rw [Evaluation.execStmts]
      refine ⟨.refl healthy, ?_⟩
      have all := @Stmt.reachedIn_append before [] { state := .block before.length } 0
        (by simp [Frame.nextStatement])
      rw [List.append_nil, Stmt.reachedIn, List.append_nil] at all
      rw [all] at suits
      exact suits
  | first :: rest, before, same, locals, frame, state, typed, sites, healthy, suits, stepping => by
      subst same
      obtain ⟨typed, others⟩ := typed
      rw [Stmt.callsIn, List.append_subset] at sites
      have longer : (before ++ [first]).length = before.length + 1 := by simp
      have further : (before ++ [first]) ++ rest = before ++ first :: rest := by simp
      have declared : Stmt.localsIn (before ++ [first]) = Stmt.localsIn before ++ first.locals := by
        rw [Stmt.localsIn_append, Stmt.localsIn, Stmt.localsIn, List.append_nil]
      rw [List.append_assoc, ← declared] at others
      rw [Evaluation.execStmts]
      -- Statements that the frame is past are skipped, but the locals they declared are there.
      by_cases passed : before.length < frame.nextStatement
      · rw [if_pos passed]
        have behind := execStmts_executes sustains here inside (before ++ first :: rest) rest
          (before ++ [first]) further others sites.2 healthy suits
          (longer ▸ stepping.passed passed)
        rw [longer] at behind
        exact behind
      · rw [if_neg passed]
        obtain ⟨blocked, bare, empty, single, begun⟩ := stepping.due passed
        obtain ⟨frameState, vars, temps, children⟩ := frame
        dsimp only at blocked bare empty
        subst blocked bare empty
        have here? : ∀ child : Frame, Stmt.reachedIn 0 (before ++ first :: rest)
            ⟨.block before.length, [], [], [(before.length, child)]⟩ =
              Stmt.localsIn before ++ first.reached child := by
          intro child
          rw [reachedIn_at rfl, Frame.child_single]
        rw [reachedIn_at rfl, ← List.append_assoc] at suits
        have reached := execStmt_executes sustains here inside first typed sites.1 healthy suits begun
        generalize Evaluation.execStmt _ _ _ _ = ended at reached ⊢
        obtain ⟨progress, after⟩ := ended
        obtain ⟨leads, reached⟩ := reached
        cases progress with
        | failed error => exact ⟨leads, reached⟩
        | suspended child =>
            obtain ⟨underway, suits⟩ := reached
            simp only [single.placed]
            refine ⟨leads, .block (by simp) underway, ?_⟩
            rw [Part.reached, here?, ← List.append_assoc]
            exact suits
        | done completion =>
            cases completion with
            | «return» value => exact ⟨leads, reached⟩
            | next =>
                simp only [single.removed]
                -- The frame stands at the next statement now, with nothing in progress.
                have next : Stepping disc past (activation.code.realm after.machine.world)
                    (before ++ first :: rest) (before ++ [first]).length
                    { state := .block (before.length + 1) } := by
                  rw [longer]
                  exact .reached
                have suits : disc.Suits (activation.code.realm after.machine.world) function
                    (locals ++ Stmt.reachedIn 0 (before ++ first :: rest)
                      { state := .block (before.length + 1) }) after.vars := by
                  rw [reachedIn_next, ← List.append_assoc]
                  exact reached
                have behind := execStmts_executes sustains here inside (before ++ first :: rest) rest
                  (before ++ [first]) further others sites.2 leads.healthy suits next
                rw [longer] at behind
                exact ⟨leads.trans behind.1, behind.2⟩

end

end

end

end ScriptEngine
