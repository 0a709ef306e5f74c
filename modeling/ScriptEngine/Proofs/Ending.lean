import ScriptEngine.Proofs.Metering
/-! Every call that is driven ends. With a meter nothing is evaluated that does not have less before
it than what it was begun within, and still all comes to what it comes to without one: the meter is
back where it was behind each evaluation, however that stopped. -/

namespace ScriptEngine

def Progress.Overflowed {α : Type} (progress : Progress α) : Prop :=
  ∃ site, progress = .failed ⟨.stackOverflow, site⟩

/-- What a meter says behind an evaluation of no more than `cost` steps: as many calls are entered as
before, and each call that was to be entered was entered if less than `limit` calls were around it,
and overflowed if not. -/
structure Meter.Leads (limit cost : Nat) (overflowed : Prop) (meter after : Meter) : Prop where
  depth : after.depth = meter.depth
  steps : after.steps ≤ meter.steps + cost
  calls : ∃ attempts, after.attempts = attempts ++ meter.attempts ∧
    after.entries = attempts.filter (· < limit) ++ meter.entries ∧
    ∀ around ∈ attempts, around < limit ∨ around = limit ∧ overflowed

namespace Meter.Leads

variable {limit cost more : Nat} {overflowed other : Prop} {meter between after : Meter}

theorem refl (meter : Meter) : Leads limit cost overflowed meter meter :=
  ⟨rfl, Nat.le_add_right .., [], rfl, rfl, nofun⟩

theorem mono (leads : Leads limit cost overflowed meter after) (dearer : cost ≤ more)
    (passed : overflowed → other) : Leads limit more other meter after := by
  obtain ⟨depth, steps, attempts, all, entered, each⟩ := leads
  exact ⟨depth, Nat.le_trans steps (Nat.add_le_add_left dearer _), attempts, all, entered,
    fun around among => (each around among).imp_right fun ⟨most, failed⟩ => ⟨most, passed failed⟩⟩

theorem trans (leads : Leads limit cost overflowed meter between)
    (further : Leads limit more other between after) (passed : overflowed → other) :
    Leads limit (cost + more) other meter after := by
  obtain ⟨depth, steps, attempts, all, entered, each⟩ := leads
  obtain ⟨deep, later, others, also, inside, every⟩ := further
  refine ⟨deep.trans depth, ?_, others ++ attempts, ?_, ?_, fun around among => ?_⟩
  · rw [← Nat.add_assoc]
    exact Nat.le_trans later (Nat.add_le_add_right steps more)
  · rw [also, all, List.append_assoc]
  · rw [inside, entered, List.filter_append, List.append_assoc]
  · rcases List.mem_append.mp among with new | old
    · exact every around new
    · exact (each around old).imp_right fun ⟨most, failed⟩ => ⟨most, passed failed⟩

end Meter.Leads

def Meets {α σ : Type} (limit cost : Nat) (meter : Meter) (metered : Metered (Progress α × σ))
    (ended : Progress α × σ) : Prop :=
  ∃ after, metered = some (ended, after) ∧ meter.Leads limit cost ended.1.Overflowed after

namespace Meets

variable {α β σ τ : Type} {limit cost more : Nat} {meter : Meter}
  {metered : Metered (Progress α × σ)} {ended : Progress α × σ}

theorem here (ended : Progress α × σ) (meter : Meter) :
    Meets limit cost meter (some (ended, meter)) ended :=
  ⟨meter, rfl, .refl meter⟩

theorem mono (meets : Meets limit cost meter metered ended) (dearer : cost ≤ more) :
    Meets limit more meter metered ended := by
  obtain ⟨after, same, leads⟩ := meets
  exact ⟨after, same, leads.mono dearer id⟩

theorem begun (meets : Meets limit cost { meter with steps := meter.steps + 1 } metered ended) :
    Meets limit (cost + 1) meter metered ended := by
  obtain ⟨after, same, depth, steps, calls⟩ := meets
  refine ⟨after, same, depth, ?_, calls⟩
  dsimp only at steps
  omega

theorem map (next : Progress α × σ → Progress β × τ) (meets : Meets limit cost meter metered ended)
    (passed : ended.1.Overflowed → (next ended).1.Overflowed) :
    Meets limit cost meter (metered.map fun (ended, meter) => (next ended, meter)) (next ended) := by
  obtain ⟨after, rfl, leads⟩ := meets
  exact ⟨after, rfl, leads.mono (Nat.le_refl _) passed⟩

theorem bind {next : (Progress α × σ) × Meter → Metered (Progress β × τ)} {result : Progress β × τ}
    (meets : Meets limit cost meter metered ended)
    (further : ∀ after : Meter, after.depth = meter.depth →
      Meets limit more after (next (ended, after)) result)
    (passed : ended.1.Overflowed → result.1.Overflowed) :
    Meets limit (cost + more) meter (metered.bind next) result := by
  obtain ⟨between, rfl, leads⟩ := meets
  obtain ⟨after, same, later⟩ := further between leads.depth
  exact ⟨after, same, leads.trans later passed⟩

end Meets

def Code.callable (code : Code) : List Function :=
  code.programs.functions ++ code.publicFunctions

def Expr.cost (price : Nat) (expr : Expr) : Nat := expr.size + price * expr.calls.length

def Stmt.cost (price : Nat) (stmt : Stmt) : Nat := stmt.size + price * stmt.calls.length

def Function.cost (price : Nat) (function : Function) : Nat :=
  Stmt.sizes function.body.stmts + 1 + price * function.calls.length

/-- The steps that a call takes at most if so many calls may nest, itself included. -/
def Code.callCost (code : Code) : Nat → Nat
  | 0 => 0
  | calls + 1 => (code.callable.map (Function.cost (code.callCost calls))).foldr max 0

theorem Code.cost_le {code : Code} {function : Function} (among : function ∈ code.callable)
    (calls : Nat) : function.cost (code.callCost calls) ≤ code.callCost (calls + 1) := by
  have each : ∀ costs : List Nat, ∀ cost ∈ costs, cost ≤ costs.foldr max 0 := by
    intro costs
    induction costs with
    | nil => exact nofun
    | cons first rest ih =>
        intro cost among
        rw [List.foldr_cons]
        rcases List.mem_cons.mp among with rfl | later
        · exact Nat.le_max_left ..
        · exact Nat.le_trans (ih cost later) (Nat.le_max_right ..)
  exact each _ _ (List.mem_map_of_mem among)

section

variable {code : Code} {function : Function} {kept : Option FunctionId}

theorem Programs.mem_functions {programs : Programs} {program : ProgramId} {id : FunctionId}
    (found : programs.function? program id = some function) : function ∈ programs.functions := by
  obtain ⟨loaded, got, declared⟩ := Option.bind_eq_some_iff.mp found
  exact List.mem_flatMap.mpr
    ⟨loaded, (mem_of_get? got).1, List.mem_of_find?_eq_some declared⟩

theorem Code.resolveCall_callable {program : ProgramId} {first : Option FunctionId} {name : String}
    {args : List DataType}
    (found : code.resolveCall program first name args = (.ok function, kept)) :
    function ∈ code.callable := by
  unfold resolveCall at found
  rcases List.mem_append.mp (Overload.resolve_mem found) with own | «public»
  · refine List.mem_append_left _ ?_
    split at own
    · rename_i loaded got
      exact List.mem_flatMap.mpr ⟨loaded, (Programs.mem_of_get? got).1, (List.mem_filter.mp own).1⟩
    · cases own
  · exact List.mem_append_right _ «public»

theorem Code.resolveMethod_callable {className : String} {first : Option FunctionId}
    {name : String} {args : List DataType}
    (found : code.resolveMethod className first name args = (.ok function, kept)) :
    function ∈ code.callable := by
  obtain ⟨candidates, offered, among⟩ := Overload.resolveAlong_mem found
  obtain ⟨decl, _, rfl⟩ := List.mem_map.mp offered
  obtain ⟨program, loaded, declared, _⟩ := Programs.mem_classMethods among
  exact List.mem_append_left _ (List.mem_flatMap.mpr ⟨program, loaded, declared⟩)

theorem Evaluation.callee_callable {frame : Frame} {first : Option FunctionId}
    {resolved : Except CompileCause Function × Option FunctionId}
    (resolves : ∀ function kept, resolved = (.ok function, kept) → function ∈ code.callable)
    (found : callee code frame first resolved = .found function kept) :
    function ∈ code.callable := by
  unfold callee at found
  split at found
  · split at found
    · rename_i loaded
      cases found
      exact List.mem_append_left _ (Programs.mem_functions loaded)
    · cases found
  · split at found
    · cases found
      exact resolves _ _ rfl
    · cases found

theorem Evaluation.choose_callable {activation : Activation} {site : CallSite}
    {types : List DataType} {frame : Frame} {machine : Machine} {receiver : Option Handle}
    {args : Variables}
    (chosen : choose activation site types frame machine = .ok (.found function kept, receiver, args)) :
    function ∈ activation.code.callable := by
  unfold choose at chosen
  dsimp only at chosen
  split at chosen
  · split at chosen
    · cases chosen
    · injection chosen with chosen
      exact callee_callable (fun _ _ found => Code.resolveMethod_callable found)
        (Prod.mk.inj chosen).1
  · injection chosen with chosen
    exact callee_callable (fun _ _ found => Code.resolveCall_callable found) (Prod.mk.inj chosen).1

theorem entryCallee_callable {stack : Stack} {entry : EntryCall}
    (found : Engine.entryCallee code stack entry = .found function kept) :
    function ∈ code.callable := by
  unfold Engine.entryCallee at found
  refine Evaluation.callee_callable (fun _ _ resolved => ?_) found
  split at resolved
  · exact Code.resolveCall_callable resolved
  · exact Code.resolveMethod_callable resolved

end

namespace Metered

def Prepared.andThen (prepared : Prepared)
    (body : Call → Variables → Machine → Progress Value × Machine) : Progress Value × Machine :=
  match prepared with
  | .stopped ended => ended
  | .ready call vars machine => body call vars machine

section

variable (activation : Activation) (invocation : Invocation) {call : Call} (vars : Variables)
  (frame : Frame) (machine : Machine)

theorem advance_body (next : call.step = .runBody) :
    advance activation.code activation.context invocation call vars frame machine =
      .ready call vars machine := by
  rw [advance, if_pos next]

theorem guardStep_eq (next : call.step = .acquireGuard) :
    Invocation.guardStep activation invocation call vars frame machine =
      (advance activation.code activation.context invocation call vars frame machine).andThen
        fun call vars machine =>
          Invocation.bodyStep activation invocation call vars frame machine := by
  have behind : call.advance.step = .runBody := by
    unfold Call.advance
    rw [next]
    rfl
  rw [advance, if_neg (by rw [next]; exact nofun)]
  unfold Invocation.guardStep step
  simp only [next]
  split
  · dsimp only
    rw [advance_body activation _ _ _ _ behind]
    rfl
  · rfl

theorem instanceStep_eq (next : call.step = .bindInstance) :
    Invocation.instanceStep activation invocation call vars frame machine =
      (advance activation.code activation.context invocation call vars frame machine).andThen
        fun call vars machine =>
          Invocation.bodyStep activation invocation call vars frame machine := by
  rw [advance, if_neg (by rw [next]; exact nofun)]
  unfold Invocation.instanceStep step
  simp only [next]
  cases Invocation.bindInstance activation.code invocation vars machine.world with
  | error error => rfl
  | ok bound =>
      obtain ⟨vars, world⟩ := bound
      dsimp only
      split
      · rename_i locks
        exact guardStep_eq activation invocation vars frame _ locks
      · rename_i free
        have behind : call.advance.step = .runBody := by simp_all [Call.advance, CallStep.next]
        rw [advance_body activation _ _ _ _ behind]
        rfl

theorem paramsStep_eq (next : call.step = .bindParams) :
    Invocation.paramsStep activation invocation call vars frame machine =
      (advance activation.code activation.context invocation call vars frame machine).andThen
        fun call vars machine =>
          Invocation.bodyStep activation invocation call vars frame machine := by
  rw [advance, if_neg (by rw [next]; exact nofun)]
  unfold Invocation.paramsStep step
  simp only [next]
  obtain ⟨vars, refused⟩ := invocation.function.params.bind invocation.args vars
  cases refused with
  | some error => rfl
  | none =>
      dsimp only
      split
      · rename_i binds
        exact instanceStep_eq activation invocation vars frame machine binds
      · rename_i free
        have behind : call.advance.step = .runBody := by simp_all [Call.advance, CallStep.next]
        rw [advance_body activation _ _ _ _ behind]
        rfl

theorem steps_eq (call : Call) :
    Invocation.steps activation invocation call frame machine =
      (advance activation.code activation.context invocation call frame.vars frame
        machine).andThen fun call vars machine =>
          Invocation.bodyStep activation invocation call vars frame machine := by
  unfold Invocation.steps
  cases next : call.step with
  | bindParams => exact paramsStep_eq activation invocation _ frame machine next
  | bindInstance => exact instanceStep_eq activation invocation _ frame machine next
  | acquireGuard => exact guardStep_eq activation invocation _ frame machine next
  | runBody =>
      rw [advance_body activation _ _ _ _ next]
      rfl

end

theorem cost_eq (price : Nat) (expr : Expr) : expr.cost price =
    (Expr.sizes expr.operands + price * (Expr.callsIn expr.operands).length) +
      (match expr with
        | .call .. => price
        | _ => 0) + 1 := by
  unfold Expr.cost
  cases expr with
  | literal | var => simp [Expr.size, Expr.calls, Expr.operands, Expr.sizes, Expr.callsIn]
  | negate =>
      simp only [Expr.size, Expr.calls, Expr.operands, Expr.sizes, Expr.callsIn, List.append_nil]
      omega
  | binary =>
      simp only [Expr.size, Expr.calls, Expr.operands, Expr.sizes, Expr.callsIn, List.append_nil]
      omega
  | call =>
      simp only [Expr.size, Expr.calls, Expr.operands, List.length_cons, Nat.mul_succ]
      omega

section

variable {code : Code} {context : ContextId} {price depth : Nat}
  {call : Invocation → Frame → Machine → Progress Value × Machine}

/-- Calls that are entered, by `call`, when `depth` calls are entered come to the same with a meter,
each in no more than `price` steps. -/
def Enters (code : Code) (context : ContextId) (price depth : Nat)
    (call : Invocation → Frame → Machine → Progress Value × Machine) : Prop :=
  ∀ (here : Rank) (invocation : Invocation) (frame : Frame) (machine : Machine) (meter : Meter),
    here.calls = code.maxCallDepth - depth → meter.depth = depth →
    invocation.function ∈ code.callable →
      Meets code.maxCallDepth price meter
        (run code context (fun program stmts frame state meter =>
            execBlock code context program here stmts frame state meter)
          invocation frame machine meter)
        (call invocation frame machine)

theorem callSite_meets (enters : Enters code context price depth call) {here : Rank}
    (calls : here.calls = code.maxCallDepth - depth) (program : ProgramId) (site : CallSite)
    (types : List DataType) (frame : Frame) (machine : Machine) {meter : Meter}
    (deep : meter.depth = depth) :
    Meets code.maxCallDepth price meter
      (callSite code context program (run code context fun program stmts frame state meter =>
          execBlock code context program here stmts frame state meter)
        site types frame machine meter)
      (Evaluation.callSite ⟨code, context, program, call⟩ site types frame machine) := by
  let activation : Activation := ⟨code, context, program, call⟩
  rw [Evaluation.callSite_eq]
  unfold callSite
  dsimp only
  rw [show Evaluation.choose ⟨code, context, program, fun _ _ _ => (.done .void, machine)⟩ site types
    frame machine = Evaluation.choose activation site types frame machine from rfl]
  cases chosen : Evaluation.choose activation site types frame machine with
  | error error => exact .here _ meter
  | ok choice =>
      obtain ⟨callee, receiver, args⟩ := choice
      cases callee with
      | gone | notFound => exact .here _ meter
      | found function kept =>
          let invocation : Invocation := ⟨function, receiver, args, some site.span, program⟩
          let world := machine.world.keepCallee ⟨program, site.offset⟩ kept
          have meets := enters here invocation (frame.child types.length) { machine with world } meter
            calls deep (Evaluation.choose_callable chosen)
          refine meets.map (fun ended => Evaluation.enterSite
            ⟨code, context, program, fun _ _ _ => ended⟩ site types.length (.found function kept)
            receiver args frame machine) ?_
          rintro ⟨site, failed⟩
          generalize call _ _ _ = ended at failed
          obtain ⟨progress, machine⟩ := ended
          cases failed
          exact ⟨site, rfl⟩

theorem operands_meets {activation : Activation} {vars : Variables} {limit : Nat}
    {evaluate : Expr → Frame → Machine → Meter → Metered (Progress Value × Machine)}
    (exprs : List Expr)
    (each : ∀ operand ∈ exprs, ∀ (frame : Frame) (machine : Machine) (meter : Meter),
      meter.depth = depth → Meets limit (operand.cost price) meter
        (evaluate operand frame machine meter)
        (Evaluation.evalExpr activation vars operand frame machine)) :
    ∀ (slot : Nat) (frame : Frame) (machine : Machine) (meter : Meter), meter.depth = depth →
      Meets limit (Expr.sizes exprs + price * (Expr.callsIn exprs).length) meter
        (operands evaluate slot exprs frame machine meter)
        (Evaluation.evalOperands activation vars slot exprs frame machine) := by
  induction exprs with
  | nil => exact fun _ _ _ meter _ => .here _ meter
  | cons first rest ih =>
      intro slot frame machine meter deep
      have behind := ih fun operand later => each operand (List.mem_cons_of_mem _ later)
      have costs : Expr.sizes (first :: rest) + price * (Expr.callsIn (first :: rest)).length =
          first.cost price + (Expr.sizes rest + price * (Expr.callsIn rest).length) := by
        simp only [Expr.sizes, Expr.callsIn, Expr.cost, List.length_append, Nat.mul_add]
        omega
      rw [costs, operands, Evaluation.evalOperands]
      split
      · rename_i passed
        rw [Evaluation.operand, if_pos passed]
        exact (behind (slot + 1) frame machine meter deep).mono (Nat.le_add_left ..)
      · rename_i due
        have here := each first (List.mem_cons_self ..) (frame.child slot) machine meter deep
        rw [show Evaluation.operand slot (Evaluation.evalExpr activation vars first) frame machine =
          Evaluation.operand slot (fun _ _ =>
            Evaluation.evalExpr activation vars first (frame.child slot) machine) frame machine from
          rfl]
        generalize Evaluation.evalExpr activation vars first (frame.child slot) machine = ended
          at here ⊢
        refine here.bind (fun after same => ?_) ?_
        · dsimp only
          generalize Evaluation.operand slot _ frame machine = computed
          obtain ⟨progress, machine⟩ := computed
          cases progress with
          | done frame => exact behind (slot + 1) frame machine after (same.trans deep)
          | suspended | failed => exact .here _ after
        · rintro ⟨site, failed⟩
          obtain ⟨progress, machine⟩ := ended
          cases failed
          rw [Evaluation.operand, if_neg due]
          exact ⟨site, rfl⟩

theorem evalExpr_meets (enters : Enters code context price depth call) (program : ProgramId)
    (vars : Variables) (within : Rank) (expr : Expr) (frame : Frame) (machine : Machine)
    (meter : Meter) (deep : meter.depth = depth)
    (below : Rank.Below ⟨code.maxCallDepth - depth, expr.size⟩ within) :
    Meets code.maxCallDepth (expr.cost price) meter
      (evalExpr code context program vars within expr frame machine meter)
      (Evaluation.evalExpr ⟨code, context, program, call⟩ vars expr frame machine) := by
  have computes := operands_meets expr.operands fun operand among frame machine meter deep =>
    evalExpr_meets enters program vars ⟨code.maxCallDepth - depth, expr.size⟩ operand frame machine
      meter deep (Or.inr ⟨rfl, Expr.size_operand among⟩)
  subst deep
  rw [evalExpr, cost_eq, Evaluation.evalExpr_eq]
  dsimp only
  rw [if_pos below]
  refine .begun ((computes 0 frame.startEval machine { meter with steps := meter.steps + 1 }
    rfl).bind (fun after same => ?_) ?_)
  · generalize Evaluation.evalOperands _ _ _ _ _ _ = computed
    obtain ⟨progress, machine⟩ := computed
    cases progress with
    | suspended | failed => exact .here _ after
    | done frame =>
        cases expr with
        | literal | var | negate | binary => exact .here _ after
        | call type span site operands =>
            exact callSite_meets enters rfl program site _ frame machine same
  · rintro ⟨site, failed⟩
    generalize Evaluation.evalOperands _ _ _ _ _ _ = computed at failed ⊢
    obtain ⟨progress, machine⟩ := computed
    cases failed
    exact ⟨site, rfl⟩
termination_by expr.size
decreasing_by exact Expr.size_operand among

theorem evalThen_eq (activation : Activation) (expr : Expr) (frame : Frame) (state : RunState)
    (continueWith : Value → RunState → Progress Completion × RunState) :
    Evaluation.evalThen activation expr frame state continueWith = valueThen state continueWith
      (Evaluation.evalExpr activation state.vars expr frame state.machine) := by
  unfold Evaluation.evalThen
  generalize Evaluation.evalExpr _ _ _ _ _ = ended
  obtain ⟨progress, machine⟩ := ended
  cases progress <;> rfl

theorem statements_meets {activation : Activation} {limit : Nat}
    {execute : Stmt → Frame → RunState → Meter → Metered (Progress Completion × RunState)}
    (stmts : List Stmt)
    (each : ∀ stmt ∈ stmts, ∀ (frame : Frame) (state : RunState) (meter : Meter),
      meter.depth = depth → Meets limit (stmt.cost price) meter (execute stmt frame state meter)
        (Evaluation.execStmt activation stmt frame state)) :
    ∀ (place : Nat) (frame : Frame) (state : RunState) (meter : Meter), meter.depth = depth →
      Meets limit (Stmt.sizes stmts + price * (Stmt.callsIn stmts).length) meter
        (statements execute place stmts frame state meter)
        (Evaluation.execStmts activation place stmts frame state) := by
  induction stmts with
  | nil => exact fun _ _ _ meter _ => .here _ meter
  | cons stmt rest ih =>
      intro place frame state meter deep
      have behind := ih fun other later => each other (List.mem_cons_of_mem _ later)
      have costs : Stmt.sizes (stmt :: rest) + price * (Stmt.callsIn (stmt :: rest)).length =
          stmt.cost price + (Stmt.sizes rest + price * (Stmt.callsIn rest).length) := by
        simp only [Stmt.sizes, Stmt.callsIn, Stmt.cost, List.length_append, Nat.mul_add]
        omega
      rw [costs, statements, Evaluation.execStmts]
      split
      · exact (behind (place + 1) frame state meter deep).mono (Nat.le_add_left ..)
      · have here := each stmt (List.mem_cons_self ..) (frame.child place) state meter deep
        generalize Evaluation.execStmt activation stmt (frame.child place) state = ended at here ⊢
        obtain ⟨progress, state⟩ := ended
        refine here.bind (fun after same => ?_) ?_
        · cases progress with
          | done completion =>
              cases completion with
              | next => exact behind (place + 1) _ state after (same.trans deep)
              | «return» value => exact .here _ after
          | suspended | failed => exact .here _ after
        · rintro ⟨site, failed⟩
          cases failed
          exact ⟨site, rfl⟩

theorem execBlock_meets {program : ProgramId} {stmts : List Stmt}
    (each : ∀ stmt ∈ stmts, ∀ (within : Rank) (frame : Frame) (state : RunState) (meter : Meter),
      meter.depth = depth → Rank.Below ⟨code.maxCallDepth - depth, stmt.size⟩ within →
        Meets code.maxCallDepth (stmt.cost price) meter
          (execStmt code context program within stmt frame state meter)
          (Evaluation.execStmt ⟨code, context, program, call⟩ stmt frame state))
    (within : Rank) (frame : Frame) (state : RunState) (meter : Meter) (deep : meter.depth = depth)
    (below : Rank.Below ⟨code.maxCallDepth - depth, Stmt.sizes stmts + 1⟩ within) :
    Meets code.maxCallDepth
      (Stmt.sizes stmts + price * (Stmt.callsIn stmts).length + 1) meter
      (execBlock code context program within stmts frame state meter)
      (Evaluation.execBlock ⟨code, context, program, call⟩ stmts frame state) := by
  have runs := statements_meets stmts fun stmt among frame state meter deep =>
    each stmt among ⟨code.maxCallDepth - depth, Stmt.sizes stmts + 1⟩ frame state meter deep
      (Or.inr ⟨rfl, Stmt.size_statement among⟩)
  subst deep
  rw [execBlock]
  dsimp only
  rw [if_pos below]
  exact .begun (runs 0 _ state { meter with steps := meter.steps + 1 } rfl)

theorem execStmt_meets (enters : Enters code context price depth call) (program : ProgramId)
    (stmt : Stmt) (within : Rank) (frame : Frame) (state : RunState) (meter : Meter)
    (deep : meter.depth = depth)
    (below : Rank.Below ⟨code.maxCallDepth - depth, stmt.size⟩ within) :
    Meets code.maxCallDepth (stmt.cost price) meter
      (execStmt code context program within stmt frame state meter)
      (Evaluation.execStmt ⟨code, context, program, call⟩ stmt frame state) := by
  have nested : ∀ stmts : List Stmt, (∀ inner ∈ stmts, inner.size < stmt.size) →
      ∀ inner ∈ stmts, ∀ (within : Rank) (frame : Frame) (state : RunState) (meter : Meter),
        meter.depth = depth → Rank.Below ⟨code.maxCallDepth - depth, inner.size⟩ within →
          Meets code.maxCallDepth (inner.cost price) meter
            (execStmt code context program within inner frame state meter)
            (Evaluation.execStmt ⟨code, context, program, call⟩ inner frame state) :=
    fun stmts smaller inner among => execStmt_meets enters program inner
  subst deep
  let begun : Meter := { meter with steps := meter.steps + 1 }
  have valued : ∀ (expr : Expr) (continueWith : Value → RunState → Progress Completion × RunState),
      expr.size < stmt.size → Meets code.maxCallDepth (expr.cost price) begun
        ((evalExpr code context program state.vars ⟨code.maxCallDepth - meter.depth, stmt.size⟩ expr
            frame state.machine begun).map fun ended =>
          (valueThen state continueWith ended.1, ended.2))
        (Evaluation.evalThen ⟨code, context, program, call⟩ expr frame state continueWith) := by
    intro expr continueWith smaller
    have meets := evalExpr_meets enters program state.vars
      ⟨code.maxCallDepth - meter.depth, stmt.size⟩ expr frame state.machine begun rfl
      (Or.inr ⟨rfl, smaller⟩)
    rw [evalThen_eq]
    refine meets.map _ ?_
    rintro ⟨site, failed⟩
    generalize Evaluation.evalExpr _ _ _ _ _ = ended at failed
    obtain ⟨progress, machine⟩ := ended
    cases failed
    exact ⟨site, rfl⟩
  have finished : ∀ ended : Progress Completion × RunState,
      Meets code.maxCallDepth (0 + 1) meter (some (ended, begun)) ended :=
    fun ended => .begun (.here ended begun)
  have costs : ∀ expr : Expr, stmt.size = expr.size + 1 → stmt.calls = expr.calls →
      stmt.cost price = expr.cost price + 1 := by
    intro expr sizes calls
    rw [Stmt.cost, Expr.cost, sizes, calls]
    omega
  rw [execStmt]
  dsimp only
  rw [if_pos below]
  cases stmt with
  | block span stmts =>
      have inner := execBlock_meets (nested stmts fun inner among =>
          Nat.lt_succ_of_lt (Stmt.size_statement among))
        ⟨code.maxCallDepth - meter.depth, Stmt.sizes stmts + 2⟩ frame state begun rfl
        (Or.inr ⟨rfl, Nat.lt_succ_self _⟩)
      have same : Stmt.cost price (.block span stmts) =
          Stmt.sizes stmts + price * (Stmt.callsIn stmts).length + 1 + 1 := by
        simp only [Stmt.cost, Stmt.size, Stmt.calls]
        omega
      rw [same]
      exact .begun inner
  | «return» span value =>
      cases value with
      | none => exact (finished _).mono (by simp [Stmt.cost, Stmt.size])
      | some expr =>
          rw [costs expr rfl rfl]
          exact .begun (valued expr _ (Nat.lt_succ_self _))
  | wait span count =>
      rw [costs count rfl rfl, Evaluation.execStmt]
      have evaluated := valued count (fun value state =>
        Evaluation.waitStep frame.clearProgress state value.waitCount) (Nat.lt_succ_self _)
      cases frame.state with
      | wait remaining => exact .begun (.here _ _)
      | fresh | call | block | eval => exact .begun evaluated
  | declare span id name type init =>
      cases init with
      | none => exact (finished _).mono (by simp [Stmt.cost, Stmt.size])
      | some expr =>
          rw [costs expr rfl rfl]
          exact .begun (valued expr _ (Nat.lt_succ_self _))
  | assign span target expr =>
      rw [costs expr rfl rfl]
      exact .begun (valued expr _ (Nat.lt_succ_self _))
  | expr value =>
      rw [costs value rfl rfl]
      exact .begun (valued value _ (Nat.lt_succ_self _))
termination_by stmt.size
decreasing_by exact smaller inner among

theorem entered_meets {α β σ τ : Type} {limit cost : Nat} {meter : Meter}
    {metered : Metered (Progress α × σ)} {ended : Progress α × σ}
    (next : Progress α × σ → Progress β × τ) (lower : meter.depth < limit)
    (meets : Meets limit cost { meter with
      depth := meter.depth + 1
      attempts := meter.depth :: meter.attempts
      entries := meter.depth :: meter.entries } metered ended)
    (passed : ended.1.Overflowed → (next ended).1.Overflowed) :
    Meets limit cost meter
      (metered.map fun (ended, meter) => (next ended, { meter with depth := meter.depth - 1 }))
      (next ended) := by
  obtain ⟨after, rfl, deep, steps, attempts, all, entered, each⟩ := meets
  refine ⟨{ after with depth := after.depth - 1 }, rfl, ?_, steps, attempts ++ [meter.depth], ?_, ?_,
    fun around among => ?_⟩
  · change after.depth - 1 = meter.depth
    rw [deep]
    exact Nat.add_sub_cancel ..
  · change after.attempts = _
    rw [all, List.append_assoc]
    rfl
  · change after.entries = _
    rw [entered, List.filter_append, List.append_assoc, List.filter_cons_of_pos (by simpa using lower)]
    rfl
  · rcases List.mem_append.mp among with inside | here
    · exact (each around inside).imp_right fun ⟨most, failed⟩ => ⟨most, passed failed⟩
    · rw [List.mem_singleton.mp here]
      exact Or.inl lower

theorem run_succ (code : Code) (context : ContextId) (calls : Nat) (invocation : Invocation)
    (frame : Frame) (machine : Machine) :
    Invocation.run code context (calls + 1) invocation frame machine =
      let (call, frame) := Invocation.entered invocation frame
      reported invocation
        ((advance code context invocation call frame.vars frame machine).andThen
          fun call vars machine => Invocation.bodyStep
            ⟨code, context, invocation.function.program, Invocation.run code context calls⟩
            invocation call vars frame machine) := by
  rw [Invocation.run]
  generalize Invocation.entered invocation frame = begun
  obtain ⟨call, frame⟩ := begun
  dsimp only
  rw [steps_eq]
  generalize Prepared.andThen _ _ = ended
  obtain ⟨progress, machine⟩ := ended
  cases progress <;> rfl

theorem bodyStep_eq (activation : Activation) (invocation : Invocation) (call : Call)
    (vars : Variables) (frame : Frame) (machine : Machine) :
    Invocation.bodyStep activation invocation call vars frame machine =
      let frame := { frame with state := .call call, vars }
      let (allowed, gate) := machine.gate.ask
      let machine := { machine with gate }
      if !allowed then (.suspended frame, machine)
      else leaveBody activation.context invocation call frame
        (Evaluation.execBlock activation invocation.function.body.stmts (frame.child 0)
          ⟨vars, machine⟩) := by
  unfold Invocation.bodyStep
  dsimp only
  split
  · rfl
  · generalize Evaluation.execBlock _ _ _ _ = ended
    obtain ⟨progress, state⟩ := ended
    cases progress <;> rfl

/-- As many calls are allowed to nest as are not entered yet. -/
theorem run_meets (calls : Nat) : ∀ depth, depth + calls = code.maxCallDepth →
    Enters code context (code.callCost calls) depth (Invocation.run code context calls) := by
  induction calls with
  | zero =>
      intro depth all here invocation frame machine meter _ deep _
      unfold run
      rw [if_pos (by omega)]
      -- The call is attempted but not entered, and overflows.
      refine ⟨_, rfl, rfl, Nat.le_refl _, [meter.depth], rfl, ?_, fun around among => ?_⟩
      · rw [List.filter_cons_of_neg (by simp; omega)]
        rfl
      · rw [List.mem_singleton.mp among]
        refine Or.inr ⟨by omega, invocation.site, ?_⟩
        unfold Invocation.run
        cases invocation.site <;> rfl
  | succ calls ih =>
      intro depth all here invocation frame machine meter rank deep callable
      have bodies := ih (depth + 1) (by omega)
      have nested : code.maxCallDepth - (depth + 1) < here.calls := by omega
      let program := invocation.function.program
      let inside : Meter := { meter with
        depth := meter.depth + 1
        attempts := meter.depth :: meter.attempts
        entries := meter.depth :: meter.entries }
      unfold run
      rw [if_neg (by omega), run_succ]
      generalize Invocation.entered invocation frame = begun
      obtain ⟨call, frame⟩ := begun
      dsimp only
      refine entered_meets (reported invocation) (by omega) ?_ ?_
      · generalize advance code context invocation call frame.vars frame machine = prepared
        cases prepared with
        | stopped ended => exact .here _ inside
        | ready call vars machine =>
            dsimp only [Prepared.andThen]
            rw [bodyStep_eq]
            dsimp only
            split
            · exact .here _ inside
            · have block := execBlock_meets
                (fun stmt (_ : stmt ∈ invocation.function.body.stmts) =>
                  execStmt_meets bodies program stmt) here
                ({ frame with state := .call call, vars }.child 0)
                ⟨vars, { machine with gate := machine.gate.ask.2 }⟩ inside (congrArg _ deep)
                (Or.inl nested)
              refine ((block.mono ?_).map (leaveBody context invocation call _) ?_)
              · have price := Code.cost_le callable calls
                unfold Function.cost Function.calls at price
                omega
              · rintro ⟨site, failed⟩
                generalize Evaluation.execBlock _ _ _ _ = ended at failed
                obtain ⟨progress, state⟩ := ended
                cases failed
                exact ⟨site, rfl⟩
      · rintro ⟨site, failed⟩
        generalize Prepared.andThen _ _ = ended at failed
        obtain ⟨progress, machine⟩ := ended
        cases failed
        unfold reported Invocation.reportedError
        dsimp only
        split
        · exact ⟨site, rfl⟩
        · cases invocation.site with
          | none => exact ⟨site, rfl⟩
          | some span => exact ⟨some span, rfl⟩

end

end Metered

namespace Engine

variable (engine : Engine) (stack : Stack) (gate : Gate)

theorem meteredDrive_eq : ∃ meter,
    engine.meteredDrive stack gate = some (engine.drive stack gate, meter) ∧
      Meter.Leads engine.code.maxCallDepth (engine.code.callCost engine.code.maxCallDepth)
        (∃ site, (engine.drive stack gate).outcome = .ok (.failed ⟨.stackOverflow, site⟩)) {} meter := by
  unfold meteredDrive
  cases started : stack.entry with
  | none =>
      refine ⟨{}, ?_, .refl _⟩
      simp only [drive, started]
  | some entry =>
      dsimp only
      split
      · rename_i missing
        refine ⟨{}, ?_, .refl _⟩
        simp only [drive, started, if_pos missing]
      · rename_i present
        have loaded : (engine.code.programs.get? stack.program).isSome = true :=
          Option.isSome_iff_ne_none.mpr (by simpa using present)
        cases found : entryCallee engine.code stack entry with
        | gone | notFound =>
            refine ⟨{}, ?_, .refl _⟩
            simp only [drive, started, if_neg present, found]
        | found function kept =>
            rw [drive_entered started loaded found]
            obtain ⟨after, same, leads⟩ :=
              @Metered.run_meets engine.code stack.context
                engine.code.maxCallDepth 0 (Nat.zero_add _) ⟨engine.code.maxCallDepth, 0⟩
                (entry.invocation function stack.program) stack.root ⟨engine.world, gate⟩ {} rfl rfl
                (entryCallee_callable found)
            refine ⟨after, ?_, leads.mono (Nat.le_refl _) ?_⟩
            · dsimp only
              rw [same]
              rfl
            · rintro ⟨site, failed⟩
              generalize Invocation.run _ _ _ _ _ _ = ended at failed ⊢
              obtain ⟨progress, machine⟩ := ended
              cases failed
              exact ⟨site, rfl⟩

theorem drive_nests :
    (engine.drive stack gate).stack.root.nesting ≤
      max stack.root.nesting engine.code.maxCallDepth := by
  have driving := engine.drive_driving stack gate
  generalize engine.drive stack gate = driven at driving ⊢
  have idle : ∀ stack : Stack, stack.finish.root.nesting = 0 := fun _ => rfl
  cases driving with
  | refused => exact Nat.le_max_left ..
  | unentered =>
      rw [idle]
      exact Nat.zero_le _
  | @entered entry function kept =>
      have here := Invocation.run_nests engine.code stack.context engine.code.maxCallDepth
        (entry.invocation function stack.program) stack.root ⟨engine.world, gate⟩
      generalize Invocation.run _ _ _ _ _ _ = ended at here ⊢
      obtain ⟨progress, machine⟩ := ended
      cases progress with
      | suspended root => exact here
      | done | failed =>
          refine Nat.le_trans (Nat.le_of_eq (idle _)) (Nat.zero_le _)

end Engine

/-- Every drive ends, however calls recurse. With a meter that gives out on any evaluation that does
not have less before it than what it was begun within, a drive comes to what it comes to without one,
in no more steps than the bodies of the loaded functions and the calls that may nest allow. Each call
that is attempted is entered as long as fewer calls are entered than may nest, so that frame trees
nest no deeper than that; one that is attempted then overflows the stack and changes nothing but what
its site keeps, and the drive is over with it. -/
theorem drives_end (engine : Engine) (stack : Stack) (gate : Gate) :
    let driven := engine.drive stack gate
    let limit := engine.code.maxCallDepth
    (∃ meter, engine.meteredDrive stack gate = some (driven, meter) ∧
      meter.depth = 0 ∧ meter.steps ≤ engine.code.callCost limit ∧
      meter.entries = meter.attempts.filter (· < limit) ∧
      ∀ around ∈ meter.attempts, around < limit ∨ around = limit ∧
        ∃ site, driven.outcome = .ok (.failed ⟨.stackOverflow, site⟩)) ∧
    driven.stack.root.nesting ≤ max stack.root.nesting limit ∧
    ∀ (body : ProgramId → List Stmt → Frame → RunState → Meter →
        Metered (Progress Completion × RunState))
      (invocation : Invocation) (frame : Frame) (machine : Machine) (steps : Nat)
      (attempts entries : List Nat),
      Metered.run engine.code stack.context body invocation frame machine
          ⟨limit, steps, attempts, entries⟩ =
        some ((.failed ⟨.stackOverflow, invocation.site⟩, machine),
          ⟨limit, steps, limit :: attempts, entries⟩) := by
  obtain ⟨meter, same, depth, steps, attempts, all, entered, each⟩ :=
    engine.meteredDrive_eq stack gate
  rw [List.append_nil] at all entered
  refine ⟨⟨meter, same, depth, ?_, ?_, ?_⟩, engine.drive_nests stack gate, ?_⟩
  · exact Nat.le_trans steps (Nat.le_of_eq (Nat.zero_add _))
  · rw [entered, all]
  · rw [all]
    exact each
  · intro body invocation frame machine steps attempts entries
    unfold Metered.run
    rw [if_pos (Nat.le_refl _)]
    cases invocation.site <;> rfl

def endless : Engine × Stack :=
  let host := Host.after [.set .maxCallDepth 3, .compile "endless" "int f() { return f() + 1; }",
    .newStack ⟨1⟩]
  (host.engine, { host.executions.headD default with entry := some { name := "f", args := [] } })

def Driven.overflows (driven : Driven) : Bool :=
  match driven.outcome with
  | .ok (.failed error) => decide (error.cause = .stackOverflow)
  | _ => false

theorem drives_end_of_endless :
    (∃ site, (endless.1.drive endless.2 .unlimited).outcome =
      .ok (.failed ⟨.stackOverflow, site⟩)) ∧
    ∃ meter, endless.1.meteredDrive endless.2 .unlimited =
        some (endless.1.drive endless.2 .unlimited, meter) ∧
      meter.depth = 0 ∧ meter.steps ≤ 15 := by
  have overflows : (endless.1.drive endless.2 .unlimited).overflows = true := by
    decide +kernel
  obtain ⟨⟨meter, same, depth, steps, _⟩, _⟩ := drives_end endless.1 endless.2 .unlimited
  refine ⟨?_, meter, same, depth, Nat.le_trans steps (by decide +kernel)⟩
  unfold Driven.overflows at overflows
  split at overflows
  · rename_i error failed
    obtain ⟨cause, site⟩ := error
    cases of_decide_eq_true overflows
    exact ⟨site, failed⟩
  · cases overflows

end ScriptEngine
