import ScriptEngine.Proofs.Sustained
/-! What holds of everything that is noted. If a watcher notes only what has a property wherever code
keeps a discipline up, then all that it notes along a run has the property, however deep the calls
are nested. -/

namespace ScriptEngine

structure Discipline.Situated (disc : Discipline) (code : Code) (names : CallScope)
    (function : Function) (locals : Locals) (vars : Variables) (world : World) : Prop where
  inside : disc.Inside code function names
  compiled : function.Typed names
  declared : locals <+: function.parameters ++ Stmt.localsIn function.body.stmts
  healthy : disc.Healthy code world
  suits : disc.Suits (code.realm world) function locals vars

structure Watcher.Sees {α : Type} (watcher : Watcher α) (holds : α → Prop) (disc : Discipline)
    (code : Code) : Prop where
  evaluated : ∀ {names function locals vars expr progress} {machine : Machine},
    disc.Situated code names function locals vars machine.world →
      expr.Typed (function.surroundings names) locals →
      (∀ value, progress = .done value → disc.Yields (code.realm machine.world) expr value) →
        ∀ note ∈ watcher.evaluated code function vars expr (progress, machine), holds note
  stores : ∀ {names function locals vars target type} {machine : Machine},
    disc.Situated code names function locals vars machine.world →
      (function.surroundings names).Names locals target type →
        ∀ note ∈ watcher.stores function vars target machine, holds note

structure Watches {α : Type} (watcher : Watcher α) (holds : α → Prop) (disc : Discipline)
    (past : Past) (activation : Activation) (nested : Invocation → Frame → Machine → List α) : Prop
    extends Sustains disc past activation where
  sees : watcher.Sees holds disc activation.code
  watched : ∀ invocation frame machine,
    Ready disc past activation.code invocation frame machine.world →
      ∀ note ∈ nested invocation frame machine, holds note

namespace Discipline.Situated

variable {disc : Discipline} {code : Code} {names : CallScope} {function : Function}
  {locals : Locals} {vars : Variables} {world after : World}

theorem later (situated : disc.Situated code names function locals vars world)
    (lawful : disc.Lawful) (leads : disc.Leads code world after) :
    disc.Situated code names function locals vars after where
  inside := situated.inside
  compiled := situated.compiled
  declared := situated.declared
  healthy := leads.healthy
  suits := situated.suits.later lawful leads.realm

end Discipline.Situated

section

variable {α : Type} {watcher : Watcher α} {holds : α → Prop} {disc : Discipline} {past : Past}
  {activation : Activation} {nested : Invocation → Frame → Machine → List α}

theorem operandNotes_hold {code : Code} {expr operand : Expr} {slot : Nat}
    (placed : expr.operands[slot]? = some operand) {notes : Frame → Machine → List α}
    {frame : Frame} {machine : Machine}
    (reckoning : Reckoning disc past (code.realm machine.world) expr slot frame)
    (hold : ∀ child, Begun disc past (code.realm machine.world) (.expr operand) child →
      ∀ note ∈ notes child machine, holds note) :
    ∀ note ∈ Evaluation.operandNotes slot notes frame machine, holds note := by
  unfold Evaluation.operandNotes
  split
  · exact nofun
  · rename_i due
    exact hold _ (reckoning.due placed due).2.2.2.2.2

variable {function : Function} {names : CallScope}

theorem siteNotes_hold (watches : Watches watcher holds disc past activation nested)
    (here : activation.program = function.program)
    (inside : disc.Inside activation.code function names) {type : DataType} {span : Span}
    {site : CallSite} {operands : List Expr} {frame : Frame} {machine : Machine}
    (resolves : names.Resolves type site operands) (among : (site, operands) ∈ function.calls)
    (healthy : disc.Healthy activation.code machine.world)
    (reckoning : Reckoning disc past (activation.code.realm machine.world)
      (.call type span site operands) operands.length frame) :
    ∀ note ∈ Evaluation.siteNotes activation nested site (operands.map Expr.type) frame machine,
      holds note := by
  have chosen := choose_chosen watches.toGoverns here inside resolves among healthy reckoning
  have calling := reckoning.calling.2.2.2
  unfold Evaluation.siteNotes
  split
  · rename_i called kept receiver args choice
    rw [choice] at chosen
    obtain ⟨_, _, ready⟩ := chosen.ready watches.toGoverns healthy calling (some site.span)
      activation.program
    rw [List.length_map]
    exact watches.watched _ _ _ ready
  · exact nofun
  · exact nofun
  · exact nofun

variable {locals : Locals} {vars : Variables}

theorem ownNotes_hold (watches : Watches watcher holds disc past activation nested)
    (here : activation.program = function.program) {expr : Expr} {frame : Frame}
    {machine : Machine} (typed : expr.Typed (function.surroundings names) locals)
    (sites : expr.calls ⊆ function.calls)
    (situated : disc.Situated activation.code names function locals vars machine.world)
    (begun : Begun disc past (activation.code.realm machine.world) (.expr expr) frame) :
    ∀ note ∈ Evaluation.ownNotes watcher activation function vars expr frame machine,
      holds note := by
  have reached := evalExpr_comes watches.toSustains here situated.inside expr typed sites
    situated.healthy situated.suits begun
  unfold Evaluation.ownNotes
  generalize Evaluation.evalExpr _ _ _ _ _ = ended at reached ⊢
  obtain ⟨progress, after⟩ := ended
  obtain ⟨leads, reached⟩ := reached
  refine watches.sees.evaluated (situated.later watches.lawful leads) typed fun value done => ?_
  dsimp only at reached
  rw [done] at reached
  exact reached

mutual

theorem exprNotes_hold (watches : Watches watcher holds disc past activation nested)
    (here : activation.program = function.program) : ∀ (expr : Expr) {frame : Frame}
      {machine : Machine}, expr.Typed (function.surroundings names) locals →
      expr.calls ⊆ function.calls →
      disc.Situated activation.code names function locals vars machine.world →
      Begun disc past (activation.code.realm machine.world) (.expr expr) frame →
        ∀ note ∈ Evaluation.exprNotes watcher activation function nested vars expr frame machine,
          holds note
  | .literal type span value, frame, machine, typed, sites, situated, begun => by
      rw [Evaluation.exprNotes]
      exact ownNotes_hold watches here typed sites situated begun
  | .var type span target, frame, machine, typed, sites, situated, begun => by
      rw [Evaluation.exprNotes]
      exact ownNotes_hold watches here typed sites situated begun
  | .negate type span inner, frame, machine, typed, sites, situated, begun => by
      have own := ownNotes_hold watches here typed sites situated begun
      have placed : (Expr.negate type span inner).operands[0]? = some inner := rfl
      rw [Evaluation.exprNotes]
      intro note among
      rcases List.mem_append.mp among with earlier | last
      · exact operandNotes_hold placed begun.reckoning (fun child => exprNotes_hold watches here
          inner typed.1 sites situated) note earlier
      · exact own note last
  | .binary type span operator left right, frame, machine, typed, sites, situated, begun => by
      have own := ownNotes_hold watches here typed sites situated begun
      obtain ⟨before, behind, gives⟩ := typed
      rw [Expr.calls, List.append_subset] at sites
      have one : (Expr.binary type span operator left right).operands[0]? = some left := rfl
      have two : (Expr.binary type span operator left right).operands[1]? = some right := rfl
      have first := operand_reckons watches.lawful one (fun child =>
        evalExpr_comes watches.toSustains here situated.inside left before sites.1 situated.healthy
          situated.suits) situated.healthy begun.reckoning
      rw [Evaluation.exprNotes]
      intro note among
      rcases List.mem_append.mp among with inner | last
      · rcases List.mem_append.mp inner with earlier | later
        · exact operandNotes_hold one begun.reckoning (fun child => exprNotes_hold watches here
            left before sites.1 situated) note earlier
        · generalize Evaluation.operand 0 _ _ _ = ended at first later
          obtain ⟨progress, between⟩ := ended
          obtain ⟨leads, first⟩ := first
          cases progress with
          | failed | suspended => cases later
          | done middle =>
              exact operandNotes_hold two first (fun child => exprNotes_hold watches here right
                behind sites.2 (situated.later watches.lawful leads)) note later
      · exact own note last
  | .call type span site operands, frame, machine, typed, sites, situated, begun => by
      have own := ownNotes_hold watches here typed sites situated begun
      obtain ⟨typed, resolves⟩ := typed
      rw [Expr.calls, List.cons_subset] at sites
      have reached := evalOperands_reckons watches.toSustains here situated.inside
        (.call type span site operands) operands [] rfl typed sites.2 situated.healthy
        situated.suits begun.reckoning
      rw [Evaluation.exprNotes]
      intro note among
      rcases List.mem_append.mp among with inner | last
      · rcases List.mem_append.mp inner with earlier | later
        · exact operandsNotes_hold watches here (.call type span site operands) operands [] rfl
            typed sites.2 situated begun.reckoning note earlier
        · rw [List.length_nil] at reached
          generalize Evaluation.evalOperands _ _ _ _ _ _ = ended at reached later
          obtain ⟨progress, after⟩ := ended
          obtain ⟨leads, reached⟩ := reached
          cases progress with
          | failed | suspended => cases later
          | done finished =>
              exact siteNotes_hold watches here situated.inside resolves sites.1 leads.healthy
                reached note later
      · exact own note last

theorem operandsNotes_hold (watches : Watches watcher holds disc past activation nested)
    (here : activation.program = function.program) (expr : Expr) :
    ∀ (operands before : List Expr), before ++ operands = expr.operands →
      ∀ {frame : Frame} {machine : Machine},
        Expr.TypedIn (function.surroundings names) locals operands →
        Expr.callsIn operands ⊆ function.calls →
        disc.Situated activation.code names function locals vars machine.world →
        Reckoning disc past (activation.code.realm machine.world) expr before.length frame →
          ∀ note ∈ Evaluation.operandsNotes watcher activation function nested vars before.length
            operands frame machine, holds note
  | [], _, _, _, _, _, _, _, _ => by
      rw [Evaluation.operandsNotes]
      exact nofun
  | first :: rest, before, whole, frame, machine, typed, sites, situated, reckoning => by
      obtain ⟨typed, others⟩ := typed
      rw [Expr.callsIn, List.append_subset] at sites
      have placed : expr.operands[before.length]? = some first := by
        rw [← whole, List.getElem?_append_right (Nat.le_refl _), Nat.sub_self]
        rfl
      have longer : (before ++ [first]).length = before.length + 1 := by simp
      have reached := operand_reckons watches.lawful placed (fun child =>
        evalExpr_comes watches.toSustains here situated.inside first typed sites.1 situated.healthy
          situated.suits) situated.healthy reckoning
      rw [Evaluation.operandsNotes]
      intro note among
      rcases List.mem_append.mp among with earlier | later
      · exact operandNotes_hold placed reckoning (fun child => exprNotes_hold watches here first
          typed sites.1 situated) note earlier
      · generalize Evaluation.operand _ _ _ _ = ended at reached later
        obtain ⟨progress, after⟩ := ended
        obtain ⟨leads, reached⟩ := reached
        cases progress with
        | failed | suspended => cases later
        | done middle =>
            refine operandsNotes_hold watches here expr rest (before ++ [first])
              (by simpa using whole) others sites.2 (situated.later watches.lawful leads)
              (longer ▸ reached) note ?_
            rw [longer]
            exact later

end

theorem valueNotes_hold (watches : Watches watcher holds disc past activation nested)
    (here : activation.program = function.program) {expr : Expr}
    (typed : expr.Typed (function.surroundings names) locals)
    (sites : expr.calls ⊆ function.calls) {frame : Frame} {state : RunState}
    (situated : disc.Situated activation.code names function locals state.vars
      state.machine.world)
    (begun : Begun disc past (activation.code.realm state.machine.world) (.expr expr) frame) :
    ∀ note ∈ Evaluation.valueNotes watcher activation function nested expr frame state,
      holds note := by
  unfold Evaluation.valueNotes
  exact exprNotes_hold watches here expr typed sites situated begun

mutual

theorem stmtNotes_hold (watches : Watches watcher holds disc past activation nested)
    (here : activation.program = function.program)
    (inside : disc.Inside activation.code function names) (compiled : function.Typed names) :
    ∀ (stmt : Stmt) {locals : Locals} {frame : Frame} {state : RunState},
      locals ++ stmt.locals <+: function.parameters ++ Stmt.localsIn function.body.stmts →
      stmt.Typed (function.surroundings names) locals → stmt.calls ⊆ function.calls →
      disc.Healthy activation.code state.machine.world →
      disc.Suits (activation.code.realm state.machine.world) function
        (locals ++ stmt.reached frame) state.vars →
      Begun disc past (activation.code.realm state.machine.world) (.stmt stmt) frame →
        ∀ note ∈ Evaluation.stmtNotes watcher activation function nested stmt frame state,
          holds note
  | .block span body, locals, frame, state, declared, typed, sites, healthy, suits, begun => by
      obtain ⟨stepping, same⟩ := begun.block.stepping
      rw [Stmt.reached, ← same] at suits
      rw [Evaluation.stmtNotes]
      exact stmtsNotes_hold watches here inside compiled body body [] rfl declared
        (by rw [Stmt.localsIn, List.append_nil]; exact typed) sites healthy suits stepping
  | .return _ none, _, _, _, _, _, _, _, _, _ | .declare _ _ _ _ none, _, _, _, _, _, _, _, _, _ => by
      rw [Evaluation.stmtNotes]
      exact nofun
  | .return _ (some expr), locals, frame, state, declared, typed, sites, healthy, suits, begun => by
      rw [Stmt.reached, List.append_nil] at suits
      rw [Evaluation.stmtNotes]
      exact valueNotes_hold watches here typed.1 sites
        ⟨inside, compiled, (List.prefix_append ..).trans declared, healthy, suits⟩
        (begun.value rfl (Or.inl fun _ _ same => nomatch same))
  | .declare _ _ _ _ (some expr), locals, frame, state, declared, typed, sites, healthy, suits,
      begun => by
      rw [Stmt.reached, List.append_nil] at suits
      rw [Evaluation.stmtNotes]
      exact valueNotes_hold watches here (typed.2 expr rfl).1 sites
        ⟨inside, compiled, (List.prefix_append ..).trans declared, healthy, suits⟩
        (begun.value rfl (Or.inl fun _ _ same => nomatch same))
  | .expr expr, locals, frame, state, declared, typed, sites, healthy, suits, begun => by
      rw [Stmt.reached, List.append_nil] at suits
      rw [Evaluation.stmtNotes]
      exact valueNotes_hold watches here typed sites
        ⟨inside, compiled, (List.prefix_append ..).trans declared, healthy, suits⟩
        (begun.value rfl (Or.inl fun _ _ same => nomatch same))
  | .wait span count, locals, frame, state, declared, typed, sites, healthy, suits, begun => by
      rw [Stmt.reached, List.append_nil] at suits
      rw [Evaluation.stmtNotes]
      split
      · exact nofun
      · rename_i starts
        exact valueNotes_hold watches here typed.1 sites
          ⟨inside, compiled, (List.prefix_append ..).trans declared, healthy, suits⟩
          (begun.value rfl (Or.inr fun remaining waiting => starts remaining waiting))
  | .assign span target expr, locals, frame, state, declared, typed, sites, healthy, suits,
      begun => by
      obtain ⟨settable, type, named, typed, accepted⟩ := typed
      rw [Stmt.reached, List.append_nil] at suits
      have situated : disc.Situated activation.code names function locals state.vars
          state.machine.world :=
        ⟨inside, compiled, (List.prefix_append ..).trans declared, healthy, suits⟩
      have starts := begun.value rfl (Or.inl fun _ _ same => nomatch same)
      have reached := evalExpr_comes watches.toSustains here inside expr typed sites healthy suits
        starts
      rw [Evaluation.stmtNotes]
      intro note among
      rcases List.mem_append.mp among with earlier | later
      · exact valueNotes_hold watches here typed sites situated starts note earlier
      · generalize Evaluation.evalExpr _ _ _ _ _ = ended at reached later
        obtain ⟨progress, after⟩ := ended
        obtain ⟨leads, reached⟩ := reached
        cases progress with
        | failed | suspended => cases later
        | done value =>
            exact watches.sees.stores (situated.later watches.lawful leads) named note later

theorem stmtsNotes_hold (watches : Watches watcher holds disc past activation nested)
    (here : activation.program = function.program)
    (inside : disc.Inside activation.code function names) (compiled : function.Typed names)
    (whole : List Stmt) :
    ∀ (stmts before : List Stmt), before ++ stmts = whole →
      ∀ {locals : Locals} {frame : Frame} {state : RunState},
        locals ++ Stmt.localsIn whole <+:
          function.parameters ++ Stmt.localsIn function.body.stmts →
        Stmt.TypedIn (function.surroundings names) (locals ++ Stmt.localsIn before) stmts →
        Stmt.callsIn stmts ⊆ function.calls →
        disc.Healthy activation.code state.machine.world →
        disc.Suits (activation.code.realm state.machine.world) function
          (locals ++ Stmt.reachedIn 0 whole frame) state.vars →
        Stepping disc past (activation.code.realm state.machine.world) whole before.length frame →
          ∀ note ∈ Evaluation.stmtsNotes watcher activation function nested before.length stmts
            frame state, holds note
  | [], _, _, _, _, _, _, _, _, _, _, _ => by
      rw [Evaluation.stmtsNotes]
      exact nofun
  | first :: rest, before, same, locals, frame, state, declared, typed, sites, healthy, suits,
      stepping => by
      subst same
      obtain ⟨typed, others⟩ := typed
      rw [Stmt.callsIn, List.append_subset] at sites
      have longer : (before ++ [first]).length = before.length + 1 := by simp
      have further : (before ++ [first]) ++ rest = before ++ first :: rest := by simp
      have here? : Stmt.localsIn (before ++ [first]) = Stmt.localsIn before ++ first.locals := by
        rw [Stmt.localsIn_append, Stmt.localsIn, Stmt.localsIn, List.append_nil]
      rw [List.append_assoc, ← here?] at others
      rw [Evaluation.stmtsNotes]
      by_cases passed : before.length < frame.nextStatement
      · rw [if_pos passed]
        have behind := stmtsNotes_hold watches here inside compiled (before ++ first :: rest)
          rest (before ++ [first]) further declared others sites.2 healthy suits
          (longer ▸ stepping.passed passed)
        rw [longer] at behind
        exact behind
      · rw [if_neg passed]
        obtain ⟨blocked, bare, empty, single, begun⟩ := stepping.due passed
        obtain ⟨frameState, vars, temps, children⟩ := frame
        dsimp only at blocked bare empty
        subst blocked bare empty
        rw [reachedIn_at rfl, ← List.append_assoc] at suits
        have visible : locals ++ Stmt.localsIn before ++ first.locals <+:
            function.parameters ++ Stmt.localsIn function.body.stmts := by
          rw [← further, Stmt.localsIn_append, here?, ← List.append_assoc,
            ← List.append_assoc] at declared
          exact (List.prefix_append ..).trans declared
        have reached := execStmt_executes watches.toSustains here inside first typed sites.1 healthy
          suits begun
        intro note among
        rcases List.mem_append.mp among with earlier | later
        · exact stmtNotes_hold watches here inside compiled first visible typed sites.1 healthy
            suits begun note earlier
        · generalize Evaluation.execStmt _ _ _ _ = ended at reached later
          obtain ⟨progress, after⟩ := ended
          obtain ⟨leads, reached⟩ := reached
          cases progress with
          | failed | suspended => cases later
          | done completion =>
              cases completion with
              | «return» value => cases later
              | next =>
                  simp only [single.removed] at later
                  have suits : disc.Suits (activation.code.realm after.machine.world) function
                      (locals ++ Stmt.reachedIn 0 (before ++ first :: rest)
                        { state := .block (before.length + 1) }) after.vars := by
                    rw [reachedIn_next, ← List.append_assoc]
                    exact reached
                  refine stmtsNotes_hold watches here inside compiled (before ++ first :: rest)
                    rest (before ++ [first]) further declared others sites.2 leads.healthy suits
                    (longer ▸ .reached) note ?_
                  rw [longer]
                  exact later

end

end

section

variable {α : Type} {watcher : Watcher α} {holds : α → Prop} {disc : Discipline} {past : Past}
  {activation : Activation} {nested : Invocation → Frame → Machine → List α}
  {invocation : Invocation} {vars : Variables}

theorem bodyNotes_hold (watches : Watches watcher holds disc past activation nested)
    (here : activation.program = invocation.function.program)
    (owns : activation.code.Owns invocation.function) {frame : Frame} {machine : Machine}
    (healthy : disc.Healthy activation.code machine.world)
    (entered : Entered disc past (activation.code.realm machine.world) invocation.function
      frame.children)
    (suits : disc.Suits (activation.code.realm machine.world) invocation.function
      (invocation.function.parameters ++ Stmt.reachedIn 0 invocation.function.body.stmts
        (frame.child 0)) vars) :
    ∀ note ∈ Invocation.bodyNotes watcher activation invocation nested vars frame machine,
      holds note := by
  obtain ⟨names, typed, inside⟩ := watches.compiled _ owns
  obtain ⟨stepping, same⟩ := entered.begun.2.stepping
  rw [← same] at suits
  have typing : Stmt.TypedIn (invocation.function.surroundings names)
      (invocation.function.parameters ++ Stmt.localsIn []) invocation.function.body.stmts := by
    rw [Stmt.localsIn, List.append_nil]
    exact typed.body
  unfold Invocation.bodyNotes
  dsimp only
  generalize machine.gate.ask = answer
  obtain ⟨allowed, gate⟩ := answer
  cases allowed with
  | false => exact nofun
  | true =>
      let state : RunState := ⟨vars, { machine with gate }⟩
      have healthy : disc.Healthy activation.code state.machine.world := healthy
      exact stmtsNotes_hold watches here inside typed _ invocation.function.body.stmts [] rfl
        (List.prefix_refl _) typing (List.Subset.refl _) healthy suits stepping

theorem guardNotes_hold (watches : Watches watcher holds disc past activation nested)
    (here : activation.program = invocation.function.program)
    (owns : activation.code.Owns invocation.function) {frame : Frame} {machine : Machine}
    (healthy : disc.Healthy activation.code machine.world) (leaf : frame.children = [])
    (suits : disc.Suits (activation.code.realm machine.world) invocation.function
      invocation.function.parameters vars) :
    ∀ note ∈ Invocation.guardNotes watcher activation invocation nested vars frame machine,
      holds note := by
  unfold Invocation.guardNotes
  dsimp only
  generalize machine.world.guards.tryLock _ _ = answer
  obtain ⟨taken, guards⟩ := answer
  cases taken with
  | false => exact nofun
  | true =>
      let machine : Machine := { machine with world := { machine.world with guards } }
      have healthy : disc.Healthy activation.code machine.world :=
        ((Discipline.Leads.refl healthy).of_guards watches.lawful guards).healthy
      refine bodyNotes_hold watches here owns healthy (Or.inl leaf) ?_
      rw [Frame.child_of_nil leaf, Stmt.reachedIn_fresh 0 _ rfl rfl, List.append_nil]
      exact suits

theorem instanceNotes_hold (watches : Watches watcher holds disc past activation nested)
    (here : activation.program = invocation.function.program)
    (owns : activation.code.Owns invocation.function) {call : Call} {frame : Frame}
    {machine : Machine} (healthy : disc.Healthy activation.code machine.world)
    (leaf : frame.children = [])
    (receives : disc.Receives (activation.code.realm machine.world)
      invocation.function.parameters vars)
    (refers : ∀ owner handle, invocation.function.owner = some owner →
      invocation.receiver = some handle →
        (activation.code.realm machine.world).Refers handle owner) :
    ∀ note ∈ Invocation.instanceNotes watcher activation invocation nested call vars frame machine,
      holds note := by
  obtain ⟨bound, after, done, leads, suits⟩ :=
    bindInstance_suits watches.toGoverns healthy owns receives refers
  unfold Invocation.instanceNotes
  simp only [done]
  let machine : Machine := { machine with world := after }
  have healthy : disc.Healthy activation.code machine.world := leads.healthy
  split
  · exact guardNotes_hold watches here owns healthy leaf suits
  · refine bodyNotes_hold watches here owns healthy (Or.inl leaf) ?_
    rw [Frame.child_of_nil leaf, Stmt.reachedIn_fresh 0 _ rfl rfl, List.append_nil]
    exact suits

theorem paramsNotes_hold (watches : Watches watcher holds disc past activation nested)
    (here : activation.program = invocation.function.program)
    (owns : activation.code.Owns invocation.function) {frame : Frame} {machine : Machine}
    (healthy : disc.Healthy activation.code machine.world) (leaf : frame.children = [])
    (takes : disc.Takes (activation.code.realm machine.world) invocation.function invocation.args)
    (refers : ∀ owner handle, invocation.function.owner = some owner →
      invocation.receiver = some handle →
        (activation.code.realm machine.world).Refers handle owner) :
    ∀ note ∈ Invocation.paramsNotes watcher activation invocation nested
      invocation.function.newCall [] frame machine, holds note := by
  have received := bind_receives takes
  unfold Invocation.paramsNotes
  split
  · exact nofun
  · rename_i vars taken
    rw [taken] at received
    dsimp only [Call.advance, CallStep.next, Function.newCall]
    by_cases owned : invocation.function.signature.callKind.bindsInstance = true
    · simp only [if_pos owned]
      exact instanceNotes_hold watches here owns healthy leaf received refers
    · simp only [if_neg owned]
      rw [if_neg CallStep.noConfusion]
      refine bodyNotes_hold watches here owns healthy (Or.inl leaf) ?_
      rw [Frame.child_of_nil leaf, Stmt.reachedIn_fresh 0 _ rfl rfl, List.append_nil]
      exact received.suits owned

theorem stepsNotes_hold (watches : Watches watcher holds disc past activation nested)
    (here : activation.program = invocation.function.program) {frame : Frame} {machine : Machine}
    (ready : Ready disc past activation.code invocation frame machine.world) :
    ∀ note ∈ Invocation.stepsNotes watcher activation invocation nested
      (Invocation.entered invocation frame).1 (Invocation.entered invocation frame).2 machine,
      holds note := by
  obtain ⟨owns, healthy, ⟨rfl, takes, refers⟩ | underway⟩ := ready
  · exact paramsNotes_hold watches here owns healthy rfl takes refers
  · cases underway with
    | queued _ suits => exact guardNotes_hold watches here owns healthy rfl suits
    | declined _ suits =>
        refine bodyNotes_hold watches here owns healthy (Or.inl rfl) ?_
        rw [Frame.child_of_nil rfl, Stmt.reachedIn_fresh 0 _ rfl rfl, List.append_nil]
        exact suits
    | running _ suits underway =>
        refine bodyNotes_hold watches here owns healthy (Or.inr ⟨_, rfl, underway⟩) ?_
        rw [Frame.child_of_child rfl]
        exact suits

end

/-- However deep calls are nested, what is noted of them has the property. -/
theorem notes_hold {α : Type} {watcher : Watcher α} {holds : α → Prop} {disc : Discipline}
    {past : Past} {code : Code} (governs : disc.Governs past code)
    (sees : watcher.Sees holds disc code) (context : ContextId) (depth : Nat)
    (invocation : Invocation) (frame : Frame) (machine : Machine)
    (ready : Ready disc past code invocation frame machine.world) :
    ∀ note ∈ Invocation.notes watcher code context depth invocation frame machine, holds note := by
  induction depth generalizing invocation frame machine with
  | zero =>
      rw [Invocation.notes]
      exact nofun
  | succ depth ih =>
      let activation : Activation :=
        ⟨code, context, invocation.function.program, Invocation.run code context depth⟩
      have watches : Watches watcher holds disc past activation
          (Invocation.notes watcher code context depth) :=
        { governs with call := run_comes governs context depth, sees, watched := ih }
      rw [Invocation.notes]
      exact stepsNotes_hold watches rfl ready

end ScriptEngine
