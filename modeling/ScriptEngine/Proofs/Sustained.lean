import ScriptEngine.Proofs.Sustaining
/-! Calls keep a discipline up. Binding the parameters and the object of a method gives its body the
variables that it was compiled with, and whatever it comes to from there, its frames and its value
keep to the discipline, however deep the calls are nested. -/

namespace ScriptEngine

def Entered (disc : Discipline) (past : Past) (realm : Realm) (function : Function)
    (children : List (Nat × Frame)) : Prop :=
  children = [] ∨ ∃ body, children = [(0, body)] ∧
    Underway disc past realm (.block function.body.stmts) body

theorem Entered.begun {disc : Discipline} {past : Past} {realm : Realm} {function : Function}
    {frame : Frame} (entered : Entered disc past realm function frame.children) :
    frame.Single 0 ∧ Begun disc past realm (.block function.body.stmts) (frame.child 0) := by
  rcases entered with leaf | ⟨body, only, underway⟩
  · exact ⟨Frame.single_of_nil leaf, Or.inl (Frame.child_of_nil leaf)⟩
  · refine ⟨Frame.single_of_child only, Or.inr ?_⟩
    rw [Frame.child_of_child only]
    exact underway

section

variable {disc : Discipline} {past : Past} {activation : Activation} {code : Code}
  {invocation : Invocation} {vars : Variables} {world after : World}

theorem Discipline.Leads.of_guards (leads : disc.Leads code world after) (lawful : disc.Lawful)
    (guards : GuardTable) : disc.Leads code world { after with guards } :=
  leads.trans (leads.healthy.congr lawful rfl rfl)

theorem releaseGuard_world (context : ContextId) (call : Call) (machine : Machine) :
    ∃ guards, (Invocation.releaseGuard context call machine).world =
      { machine.world with guards } := by
  unfold Invocation.releaseGuard
  cases call.heldGuard? with
  | none => exact ⟨machine.world.guards, rfl⟩
  | some owner => exact ⟨_, rfl⟩

theorem result_passes {realm : Realm} {function : Function} {completion : Completion}
    (lawful : disc.Lawful)
    (stores : ∀ value, completion = .return value → disc.Stores realm function.returns value) :
    disc.Passes realm function.returns (Invocation.result function completion) := by
  cases completion with
  | next => exact lawful.default
  | «return» value =>
      have stores := stores value rfl
      unfold Discipline.Stores at stores
      unfold Invocation.result
      dsimp only
      cases converted : value.convert? function.returns with
      | none =>
          rw [converted] at stores
          exact stores
      | some stored =>
          rw [converted] at stores
          exact stores

theorem bodyStep_comes (sustains : Sustains disc past activation)
    (here : activation.program = invocation.function.program)
    (owns : activation.code.Owns invocation.function) {state : FrameState} {old : Variables}
    {children : List (Nat × Frame)} {machine : Machine}
    (healthy : disc.Healthy activation.code machine.world)
    (entered : Entered disc past (activation.code.realm machine.world) invocation.function children)
    (suits : disc.Suits (activation.code.realm machine.world) invocation.function
      (invocation.function.parameters ++ Stmt.reachedIn 0 invocation.function.body.stmts
        (Frame.child ⟨state, old, [], children⟩ 0)) vars) :
    Comes disc past activation.code (.call invocation.function)
      (fun realm value => disc.fits realm invocation.function.returns value) machine.world
      (Invocation.bodyStep activation invocation
        { invocation.function.newCall with step := .runBody } vars ⟨state, old, [], children⟩
        machine) := by
  let running : Call := { invocation.function.newCall with step := .runBody }
  let frame : Frame := ⟨.call running, vars, [], children⟩
  have among := sustains.owned _ owns
  have entering : Entered disc past (activation.code.realm machine.world) invocation.function
      frame.children := entered
  obtain ⟨single, begun⟩ := entering.begun
  have suits : disc.Suits (activation.code.realm machine.world) invocation.function
      (invocation.function.parameters ++ Stmt.reachedIn 0 invocation.function.body.stmts
        (frame.child 0)) vars := suits
  unfold Invocation.bodyStep
  dsimp only
  generalize machine.gate.ask = answer
  obtain ⟨allowed, gate⟩ := answer
  cases allowed with
  | false =>
      -- The body is not run, so what was suspended in it still is.
      refine ⟨.refl healthy, ?_⟩
      rcases entered with rfl | ⟨body, rfl, underway⟩
      · rw [Frame.child_of_nil rfl, Stmt.reachedIn_fresh 0 _ rfl rfl, List.append_nil] at suits
        exact .declined among suits
      · rw [Frame.child_of_child rfl] at suits
        exact .running among suits underway
  | true =>
      obtain ⟨names, typed, inside⟩ := sustains.compiled _ owns
      obtain ⟨stepping, same⟩ := begun.stepping
      rw [← same] at suits
      have typed : Stmt.TypedIn (invocation.function.surroundings names)
          (invocation.function.parameters ++ Stmt.localsIn []) invocation.function.body.stmts := by
        rw [Stmt.localsIn, List.append_nil]
        exact typed.body
      let state : RunState := ⟨vars, { machine with gate }⟩
      have healthy : disc.Healthy activation.code state.machine.world := healthy
      have reached := execStmts_executes sustains here inside _ invocation.function.body.stmts [] rfl
        typed (List.Subset.refl _) healthy suits stepping
      simp only [Bool.not_true, Bool.false_eq_true, if_false, Evaluation.execBlock]
      rw [List.length_nil] at reached
      generalize Evaluation.execStmts activation 0 _ _ _ = ended at reached ⊢
      obtain ⟨progress, after⟩ := ended
      obtain ⟨leads, reached⟩ := reached
      -- Releasing a guard touches nothing that the discipline speaks of.
      obtain ⟨guards, released⟩ :=
        releaseGuard_world activation.context running after.machine
      have further := leads.of_guards sustains.lawful guards
      cases progress with
      | failed error =>
          refine ⟨?_, reached⟩
          rw [released]
          exact further
      | done completion =>
          have passes := @result_passes _ (activation.code.realm after.machine.world)
            invocation.function completion sustains.lawful (by
              rintro value rfl
              exact reached)
          dsimp only
          generalize Invocation.result invocation.function completion = result at passes ⊢
          cases result with
          | error error =>
              refine ⟨?_, passes⟩
              rw [released]
              exact further
          | ok value =>
              simp only [Progress.ofExcept]
              refine ⟨?_, ?_⟩
              · rw [released]
                exact further
              · rw [released]
                exact passes
      | suspended left =>
          have placed : ({ frame.withChild 0 left with vars := after.vars } : Frame) =
              ⟨.call running, after.vars, [], [(0, left)]⟩ := by
            rw [single.placed]
          refine ⟨leads, ?_⟩
          change Underway disc past _ _ { frame.withChild 0 left with vars := after.vars }
          rw [placed]
          exact .running among reached.2 reached.1

/-- The parameters are the first locals of a call, and fit what they are declared as. -/
structure Discipline.Receives (disc : Discipline) (realm : Realm) (locals : Locals) (vars : Variables) :
    Prop where
  declares : vars.Declares locals
  free : ∀ name, vars.find? (.reserved name) = none
  fits : ∀ var ∈ vars, disc.fits realm var.type var.value

theorem bindFrom_receives {realm : Realm} (args : Variables) {params : List Param} :
    ∀ {before : Locals} {vars : Variables}, disc.Receives realm before vars →
      (∀ (place : Nat) (param : Param), params[place]? = some param →
        match args[before.length + place]? with
        | some arg => disc.Stores realm param.type arg.value
        | none => ¬ disc.bars .typeMismatch) →
      match ParamList.bindFrom args before.length vars params with
      | (vars, none) =>
          disc.Receives realm (before ++ params.map fun param => (param.name, param.type)) vars
      | (_, some error) => ¬ disc.bars error.cause := by
  induction params with
  | nil =>
      intro before vars receives _
      rw [List.map_nil, List.append_nil]
      exact receives
  | cons param rest ih =>
      intro before vars receives takes
      have here := takes 0 param rfl
      rw [Nat.add_zero] at here
      rw [ParamList.bindFrom, ParamList.bindParam]
      cases given : args[before.length]? with
      | none =>
          rw [given] at here
          exact here
      | some arg =>
          rw [given] at here
          have here : disc.Stores realm param.type arg.value := here
          simp only [Option.bind_some]
          unfold Discipline.Stores at here
          cases converted : arg.value.convert? param.type with
          | none =>
              rw [converted] at here
              exact here
          | some value =>
              rw [converted] at here
              let var : Variable :=
                (Variable.holding param.name param.type value).bind (.var ⟨before.length⟩)
              have next : disc.Receives realm (before ++ [(param.name, param.type)])
                  (vars ++ [var]) := by
                refine ⟨@Variables.Declares.concat _ _ receives.declares var rfl, fun name => ?_, ?_⟩
                · have missing := receives.free name
                  rw [Variables.find?, if_neg Binding.noConfusion] at missing ⊢
                  rw [List.find?_append, missing]
                  rfl
                · intro other among
                  rcases List.mem_append.mp among with old | new
                  · exact receives.fits other old
                  · rw [List.mem_singleton.mp new]
                    exact here
              have behind := ih next fun place later found => by
                have shifted := takes (place + 1) later found
                rw [List.length_append, List.length_singleton, Nat.add_assoc, Nat.add_comm 1]
                exact shifted
              rw [List.length_append, List.length_singleton, List.append_assoc] at behind
              exact behind

theorem bind_receives {realm : Realm} {function : Function} {args : Variables}
    (takes : disc.Takes realm function args) :
    match function.params.bind args [] with
    | (vars, none) => disc.Receives realm function.parameters vars
    | (_, some error) => ¬ disc.bars error.cause := by
  have nothing : disc.Receives realm [] [] :=
    ⟨rfl, fun _ => rfl, nofun⟩
  have received := bindFrom_receives args nothing fun place param found => by
    rw [List.length_nil, Nat.zero_add]
    exact takes place param found
  exact received

theorem Discipline.Receives.suits {realm : Realm} {function : Function}
    (receives : disc.Receives realm function.parameters vars)
    (free : function.signature.callKind.bindsInstance ≠ true) :
    disc.Suits realm function function.parameters vars := by
  refine ⟨receives.declares, fun owner same => ?_, receives.fits⟩
  have unowned : function.owner = none := by
    refine Signature.owner_of_function ?_
    cases kind : function.signature.callKind <;> simp [kind, CallKind.bindsInstance] at free ⊢
  rw [unowned] at same
  cases same

theorem programInstance_leads (governs : disc.Governs past code) (healthy : disc.Healthy code world)
    {program : ProgramId} {owner : String} (contained : code.classes.contains owner = true) :
    ∃ handle after, Invocation.programInstance code program owner world = .ok (handle, after) ∧
      disc.Leads code world after ∧ (code.realm after).Refers handle owner := by
  unfold Invocation.programInstance
  dsimp only
  split
  · rename_i handle fitting
    refine ⟨handle, world, rfl, .refl healthy, ?_⟩
    obtain ⟨_, fits⟩ := Option.filter_eq_some_iff.mp fitting
    split at fits
    · rename_i object live
      exact .of_live live fits
    · cases fits
  · have members : ∃ fields, code.classes.members? owner = some fields := by
      rw [ClassTable.members?, if_pos contained]
      exact ⟨_, rfl⟩
    obtain ⟨fields, members⟩ := members
    rw [members]
    have leads := healthy.allocate governs.lawful members
    have live := Heap.get?_allocate healthy.reusable ⟨owner, fields⟩
    have derives := ClassTable.derives_refl contained
    refine ⟨_, _, rfl, leads.trans (leads.healthy.congr governs.lawful ?_ ?_), ?_⟩
    · split <;> rfl
    · split <;> rfl
    · have refers : Realm.Refers ⟨code.classes, (world.heap.allocate ⟨owner, fields⟩).2⟩
          (world.heap.allocate ⟨owner, fields⟩).1 owner := .of_live live derives
      split <;> exact refers

theorem bindInstance_suits (governs : disc.Governs past code) (healthy : disc.Healthy code world)
    (owns : code.Owns invocation.function)
    (receives : disc.Receives (code.realm world) invocation.function.parameters vars)
    (refers : ∀ owner handle, invocation.function.owner = some owner →
      invocation.receiver = some handle → (code.realm world).Refers handle owner) :
    ∃ bound after, Invocation.bindInstance code invocation vars world = .ok (bound, after) ∧
      disc.Leads code world after ∧
        disc.Suits (code.realm after) invocation.function invocation.function.parameters bound := by
  have coherent := governs.coherent _ (governs.owned _ owns)
  unfold Invocation.bindInstance
  cases owned : invocation.function.owner with
  | none =>
      refine ⟨vars, world, rfl, .refl healthy, receives.declares, fun owner same => ?_,
        receives.fits⟩
      rw [owned] at same
      cases same
  | some owner =>
      have contained := coherent.owned owner owned
      have bound : ∀ {handle : Handle} {after : World}, disc.Leads code world after →
          (code.realm after).Refers handle owner →
            disc.Suits (code.realm after) invocation.function invocation.function.parameters
              (vars ++ Invocation.reservedVariables code owner handle) := by
        intro handle after leads refers
        refine ⟨receives.declares.append (Variables.locals_reservedVariables ..),
          fun other same => ?_, fun var among => ?_⟩
        · rw [owned] at same
          cases same
          exact Variables.hosts_reservedVariables governs.founded contained refers receives.free
        · rcases List.mem_append.mp among with param | reserved
          · exact governs.lawful.later (receives.fits var param) leads.realm
          · unfold Invocation.reservedVariables at reserved
            rcases List.mem_cons.mp reserved with rfl | parent
            · exact governs.lawful.refers refers
            · split at parent
              · rename_i above named
                rw [List.mem_singleton.mp parent]
                exact governs.lawful.refers
                  (refers.base governs.founded (ClassTable.derives_parent governs.founded named))
              · cases parent
      cases given : invocation.receiver with
      | some handle =>
          exact ⟨_, world, rfl, .refl healthy, bound (.refl healthy) (refers owner handle owned given)⟩
      | none =>
          obtain ⟨handle, after, chosen, leads, refers⟩ :=
            @programInstance_leads _ _ _ _ governs healthy invocation.function.program _ contained
          simp only [chosen, bind, Except.bind, pure, Except.pure]
          exact ⟨_, after, rfl, leads, bound leads refers⟩

theorem guardStep_comes (sustains : Sustains disc past activation)
    (here : activation.program = invocation.function.program)
    (owns : activation.code.Owns invocation.function) {state : FrameState} {old : Variables}
    {machine : Machine} (healthy : disc.Healthy activation.code machine.world)
    (locks : invocation.function.signature.callKind.isSynchronized = true)
    (suits : disc.Suits (activation.code.realm machine.world) invocation.function
      invocation.function.parameters vars) :
    Comes disc past activation.code (.call invocation.function)
      (fun realm value => disc.fits realm invocation.function.returns value) machine.world
      (Invocation.guardStep activation invocation
        { invocation.function.newCall with step := .acquireGuard } vars ⟨state, old, [], []⟩
        machine) := by
  unfold Invocation.guardStep
  dsimp only
  generalize machine.world.guards.tryLock _ _ = answer
  obtain ⟨taken, guards⟩ := answer
  have leads := (Discipline.Leads.refl healthy).of_guards sustains.lawful guards
  cases taken with
  | false => exact ⟨leads, .queued (sustains.owned _ owns) suits locks⟩
  | true =>
      have reached := @bodyStep_comes _ _ _ _ vars sustains here owns state old []
        { machine with world := { machine.world with guards } } leads.healthy (Or.inl rfl) (by
          rw [Frame.child_of_nil rfl, Stmt.reachedIn_fresh 0 _ rfl rfl, List.append_nil]
          exact suits)
      exact ⟨leads.trans reached.1, reached.2⟩

theorem instanceStep_comes (sustains : Sustains disc past activation)
    (here : activation.program = invocation.function.program)
    (owns : activation.code.Owns invocation.function) {state : FrameState} {old : Variables}
    {machine : Machine} (healthy : disc.Healthy activation.code machine.world)
    (receives : disc.Receives (activation.code.realm machine.world)
      invocation.function.parameters vars)
    (refers : ∀ owner handle, invocation.function.owner = some owner →
      invocation.receiver = some handle →
        (activation.code.realm machine.world).Refers handle owner) :
    Comes disc past activation.code (.call invocation.function)
      (fun realm value => disc.fits realm invocation.function.returns value) machine.world
      (Invocation.instanceStep activation invocation
        { invocation.function.newCall with step := .bindInstance } vars ⟨state, old, [], []⟩
        machine) := by
  obtain ⟨bound, after, done, leads, suits⟩ :=
    bindInstance_suits sustains.toGoverns healthy owns receives refers
  unfold Invocation.instanceStep
  simp only [done]
  dsimp only [Call.advance, CallStep.next]
  let machine : Machine := { machine with world := after }
  have healthy : disc.Healthy activation.code machine.world := leads.healthy
  by_cases locks : invocation.function.signature.callKind.isSynchronized = true
  · have locking : invocation.function.newCall.kind.isSynchronized = true := locks
    simp only [if_pos locking, if_true]
    have reached := @guardStep_comes _ _ _ _ bound sustains here owns state old machine healthy
      locks suits
    exact ⟨leads.trans reached.1, reached.2⟩
  · have free : ¬ invocation.function.newCall.kind.isSynchronized = true := locks
    simp only [if_neg free]
    rw [if_neg CallStep.noConfusion]
    have reached := @bodyStep_comes _ _ _ _ bound sustains here owns state old [] machine healthy
      (Or.inl rfl) (by
        rw [Frame.child_of_nil rfl, Stmt.reachedIn_fresh 0 _ rfl rfl, List.append_nil]
        exact suits)
    exact ⟨leads.trans reached.1, reached.2⟩

theorem paramsStep_comes (sustains : Sustains disc past activation)
    (here : activation.program = invocation.function.program)
    (owns : activation.code.Owns invocation.function) {state : FrameState} {old : Variables}
    {machine : Machine} (healthy : disc.Healthy activation.code machine.world)
    (takes : disc.Takes (activation.code.realm machine.world) invocation.function invocation.args)
    (refers : ∀ owner handle, invocation.function.owner = some owner →
      invocation.receiver = some handle →
        (activation.code.realm machine.world).Refers handle owner) :
    Comes disc past activation.code (.call invocation.function)
      (fun realm value => disc.fits realm invocation.function.returns value) machine.world
      (Invocation.paramsStep activation invocation invocation.function.newCall []
        ⟨state, old, [], []⟩ machine) := by
  have received := bind_receives takes
  unfold Invocation.paramsStep
  split
  · rename_i error failed
    rw [failed] at received
    exact ⟨.refl healthy, received⟩
  · rename_i vars taken
    rw [taken] at received
    dsimp only [Call.advance, CallStep.next, Function.newCall]
    by_cases owned : invocation.function.signature.callKind.bindsInstance = true
    · simp only [if_pos owned]
      exact instanceStep_comes sustains here owns healthy received refers
    · simp only [if_neg owned]
      rw [if_neg CallStep.noConfusion]
      refine bodyStep_comes sustains here owns healthy (Or.inl rfl) ?_
      rw [Frame.child_of_nil rfl, Stmt.reachedIn_fresh 0 _ rfl rfl, List.append_nil]
      exact received.suits owned

theorem steps_comes (sustains : Sustains disc past activation)
    (here : activation.program = invocation.function.program) {frame : Frame} {machine : Machine}
    (ready : Ready disc past activation.code invocation frame machine.world) :
    Comes disc past activation.code (.call invocation.function)
      (fun realm value => disc.fits realm invocation.function.returns value) machine.world
      (Invocation.steps activation invocation (Invocation.entered invocation frame).1
        (Invocation.entered invocation frame).2 machine) := by
  obtain ⟨owns, healthy, ⟨rfl, takes, refers⟩ | underway⟩ := ready
  · exact paramsStep_comes sustains here owns healthy takes refers
  · cases underway with
    | queued _ suits locks => exact guardStep_comes sustains here owns healthy locks suits
    | declined _ suits =>
        refine bodyStep_comes sustains here owns healthy (Or.inl rfl) ?_
        rw [Frame.child_of_nil rfl, Stmt.reachedIn_fresh 0 _ rfl rfl, List.append_nil]
        exact suits
    | running _ suits underway =>
        refine bodyStep_comes sustains here owns healthy (Or.inr ⟨_, rfl, underway⟩) ?_
        rw [Frame.child_of_child rfl]
        exact suits

end

theorem RuntimeError.cause_positionedAt (error : RuntimeError) (site : Option Span) :
    (error.positionedAt site).cause = error.cause := by
  cases site <;> rfl

theorem Invocation.cause_reportedError (invocation : Invocation) (error : RuntimeError) :
    (reportedError invocation error).cause = error.cause := by
  unfold reportedError
  split
  · rfl
  · exact error.cause_positionedAt _

/-- However far a call gets and however deep its calls are nested, it keeps the discipline up. -/
theorem run_comes {disc : Discipline} {past : Past} {code : Code} (governs : disc.Governs past code)
    (context : ContextId) (depth : Nat) (invocation : Invocation) (frame : Frame)
    (machine : Machine) (ready : Ready disc past code invocation frame machine.world) :
    Comes disc past code (.call invocation.function)
      (fun realm value => disc.fits realm invocation.function.returns value) machine.world
      (Invocation.run code context depth invocation frame machine) := by
  -- The induction is on the calls that may still be nested; what it gives is what calls in the body
  -- do.
  induction depth generalizing invocation frame machine with
  | zero =>
      rw [Invocation.run]
      refine ⟨.refl ready.healthy, ?_⟩
      dsimp only
      rw [RuntimeError.cause_positionedAt]
      exact governs.lawful.spares rfl
  | succ depth ih =>
      let activation : Activation :=
        ⟨code, context, invocation.function.program, Invocation.run code context depth⟩
      have sustains : Sustains disc past activation := { governs with call := ih }
      have reached := @steps_comes _ _ activation invocation sustains rfl _ _ ready
      unfold Invocation.run
      dsimp only
      generalize Invocation.steps activation _ _ _ _ = ended at reached ⊢
      obtain ⟨progress, after⟩ := ended
      cases progress with
      | done | suspended => exact reached
      | failed error =>
          refine ⟨reached.1, ?_⟩
          dsimp only
          rw [Invocation.cause_reportedError]
          exact reached.2

end ScriptEngine
