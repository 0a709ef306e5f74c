import ScriptEngine.Proofs.Remainder
/-! On fresh frames nothing is passed over, so the evaluation over frames is the one without. -/

namespace ScriptEngine.Agreement

open Direct (Course Ending Executed)

abbrev computed (temps : List Value) : Frame := { state := .eval, temps }

abbrev blockAt (next : Nat) : Frame := { state := .block next }

section

variable {code : Code} {context : ContextId} {program : ProgramId}
  {call : Invocation → Course → Ending Value} {whole : Invocation → Frame → Course → Ending Value}

theorem operand_computed (direct : Frame → Course → Ending Value) (temps : List Value)
    (course : Course) :
    Remainder.operand temps.length direct (computed temps) course =
      (direct {} course).andThen fun value => .pure (computed (temps ++ [value])) := by
  rw [Remainder.operand, if_neg (Nat.lt_irrefl _)]
  rfl

theorem callSite_computed (same : ∀ invocation, whole invocation {} = call invocation)
    (site : CallSite) (types : List DataType) (temps : List Value) (course : Course) :
    Remainder.callSite ⟨code, context, program, whole⟩ site types (computed temps) course =
      Direct.callSite ⟨code, context, program, call⟩ site types temps course := by
  have entered : ∀ resolved receiver args,
      Remainder.enter ⟨code, context, program, whole⟩ site types.length
        (Evaluation.callee code {} none resolved) receiver args (computed temps) course =
      Direct.enter ⟨code, context, program, call⟩ site receiver args resolved course := by
    intro resolved receiver args
    obtain ⟨found, kept⟩ := resolved
    cases found with
    | error cause => rfl
    | ok function =>
        change whole _ {} _ = call _ _
        rw [same]
  unfold Remainder.callSite Direct.callSite
  by_cases receives : site.hasReceiver = true
  · simp only [receives, if_true]
    cases Evaluation.receiver course.world.heap site temps with
    | error error => rfl
    | ok found => exact entered ..
  · simp only [receives, Bool.false_eq_true, if_false]
    exact entered ..

mutual

theorem expr_fresh (same : ∀ invocation, whole invocation {} = call invocation)
    (vars : Variables) : ∀ (expr : Expr) (course : Course),
      Remainder.expr ⟨code, context, program, whole⟩ vars expr {} course =
        Direct.expr ⟨code, context, program, call⟩ vars expr course
  | .literal .., _ => by
      rw [Remainder.expr, Direct.expr]
  | .var .., _ => by
      rw [Remainder.expr, Direct.expr]
  | .negate type span inner, course => by
      have first := operand_computed
        (Remainder.expr ⟨code, context, program, whole⟩ vars inner) [] course
      rw [Remainder.expr, Direct.expr, ← expr_fresh same vars inner course]
      change (Remainder.operand 0 _ (computed []) course).andThen _ = _
      rw [List.length_nil] at first
      rw [first, Ending.andThen_assoc]
      rfl
  | .binary type span operator left right, course => by
      have first := operand_computed
        (Remainder.expr ⟨code, context, program, whole⟩ vars left) [] course
      have second : ∀ value course, Remainder.operand 1
          (Remainder.expr ⟨code, context, program, whole⟩ vars right) (computed [value]) course =
            (Direct.expr ⟨code, context, program, call⟩ vars right course).andThen
              fun more => .pure (computed [value, more]) := by
        intro value course
        rw [← expr_fresh same vars right course]
        exact operand_computed _ [value] course
      rw [Remainder.expr, Direct.expr, ← expr_fresh same vars left course]
      change (Remainder.operand 0 _ (computed []) course).andThen _ = _
      rw [List.length_nil] at first
      rw [first, Ending.andThen_assoc]
      simp only [Ending.andThen_pure, List.nil_append, second, Ending.andThen_assoc]
  | .call type span site operands, course => by
      have first := exprs_computed same vars operands [] course
      rw [Remainder.expr, Direct.expr]
      change (Remainder.exprs _ _ 0 _ (computed []) course).andThen _ = _
      rw [List.length_nil] at first
      rw [first, Ending.andThen_assoc]
      simp only [Ending.andThen_pure, List.nil_append, callSite_computed same]

theorem exprs_computed (same : ∀ invocation, whole invocation {} = call invocation)
    (vars : Variables) : ∀ (operands : List Expr) (temps : List Value) (course : Course),
      Remainder.exprs ⟨code, context, program, whole⟩ vars temps.length operands (computed temps)
          course =
        (Direct.exprs ⟨code, context, program, call⟩ vars operands course).andThen
          fun values => .pure (computed (temps ++ values))
  | [], temps, course => by
      rw [Remainder.exprs, Direct.exprs]
      simp only [Ending.andThen_pure, List.append_nil]
  | first :: rest, temps, course => by
      have more : ∀ value course, Remainder.exprs ⟨code, context, program, whole⟩ vars
          (temps.length + 1) rest (computed (temps ++ [value])) course =
            (Direct.exprs ⟨code, context, program, call⟩ vars rest course).andThen
              fun values => .pure (computed (temps ++ value :: values)) := by
        intro value course
        have counted : (temps ++ [value]).length = temps.length + 1 := by simp
        rw [← counted, exprs_computed same vars rest (temps ++ [value]) course]
        simp only [List.append_assoc, List.singleton_append]
      rw [Remainder.exprs, Direct.exprs, operand_computed, expr_fresh same vars first,
        Ending.andThen_assoc, Ending.andThen_assoc]
      simp only [Ending.andThen_pure, more, Ending.andThen_assoc]

end

mutual

theorem stmt_fresh (same : ∀ invocation, whole invocation {} = call invocation) :
    ∀ (stmt : Stmt) (vars : Variables) (course : Course),
      Remainder.stmt ⟨code, context, program, whole⟩ stmt {} vars course =
        Direct.stmt ⟨code, context, program, call⟩ vars stmt course
  | .block _ body, vars, course => by
      rw [Remainder.stmt, Direct.stmt]
      exact stmts_fresh same body 0 vars course
  | .return _ none, _, _ => by
      rw [Remainder.stmt, Direct.stmt]
  | .return _ (some expr), vars, course => by
      rw [Remainder.stmt, Direct.stmt, expr_fresh same]
  | .wait _ count, vars, course => by
      rw [Remainder.stmt, Direct.stmt, ← expr_fresh same]
  | .declare _ _ _ _ none, _, _ => by
      rw [Remainder.stmt, Direct.stmt]
  | .declare _ _ _ _ (some expr), vars, course => by
      rw [Remainder.stmt, expr_fresh same]
      rfl
  | .assign _ _ expr, vars, course => by
      rw [Remainder.stmt, Direct.stmt, expr_fresh same]
  | .expr expr, vars, course => by
      rw [Remainder.stmt, Direct.stmt, expr_fresh same]

theorem stmts_fresh (same : ∀ invocation, whole invocation {} = call invocation) :
    ∀ (stmts : List Stmt) (place : Nat) (vars : Variables) (course : Course),
      Remainder.stmts ⟨code, context, program, whole⟩ place stmts (blockAt place) vars course =
        Direct.stmts ⟨code, context, program, call⟩ vars stmts course
  | [], _, _, _ => by
      rw [Remainder.stmts, Direct.stmts]
  | first :: rest, place, vars, course => by
      have here : ¬ place < (blockAt place).nextStatement := Nat.lt_irrefl place
      have more := stmts_fresh same rest (place + 1)
      rw [Remainder.stmts, Direct.stmts, if_neg here]
      change (Remainder.stmt _ first {} vars course).andThen _ = _
      rw [stmt_fresh same first]
      congr 1
      funext executed course
      obtain ⟨completion, vars⟩ := executed
      cases completion with
      | next => exact more vars course
      | «return» value => rfl

end

abbrev opened (inner : Call) : Frame := { state := .call inner }

structure Running (function : Function) (inner : Call) : Prop where
  kind : inner.kind = function.signature.callKind
  owner : inner.owner = function.owner
  step : inner.step = .runBody

theorem Running.heldGuard {function : Function} {inner : Call} (running : Running function inner) :
    inner.heldGuard? = Direct.guardOf function := by
  simp only [Call.heldGuard?, Call.holdsGuard, Direct.guardOf, running.kind, running.owner,
    running.step, decide_true, Bool.and_true]

theorem bodyStep_fresh (same : ∀ invocation, whole invocation {} = call invocation)
    (invocation : Invocation) {inner started : Call}
    (running : Running invocation.function inner) (vars : Variables) (course : Course) :
    Remainder.bodyStep ⟨code, context, program, whole⟩ invocation inner vars (opened started)
        course =
      Direct.body ⟨code, context, program, call⟩ invocation.function vars course := by
  let finish (ended : Executed) : Ending Value :=
    let ended := ended.andThen fun executed course =>
      ⟨Invocation.result invocation.function executed.1, course⟩
    { ended with
      course := Direct.unlock context (Direct.guardOf invocation.function) ended.course }
  have body : Remainder.stmts ⟨code, context, program, whole⟩ 0 invocation.function.body.stmts
      (blockAt 0) vars course = Direct.stmts ⟨code, context, program, call⟩ vars
        invocation.function.body.stmts course :=
    stmts_fresh same invocation.function.body.stmts 0 vars course
  have finished := congrArg finish body
  simp only [Remainder.bodyStep, running.heldGuard]
  exact finished

theorem instanceStep_fresh (same : ∀ invocation, whole invocation {} = call invocation)
    (invocation : Invocation) {inner started : Call}
    (kind : inner.kind = invocation.function.signature.callKind)
    (owner : inner.owner = invocation.function.owner) (binds : inner.step = .bindInstance)
    (vars : Variables) (course : Course) :
    Remainder.instanceStep ⟨code, context, program, whole⟩ invocation inner vars (opened started)
        course =
      match Invocation.bindInstance code invocation vars course.world with
      | .error error => .fail error course
      | .ok (vars, world) =>
          Direct.body ⟨code, context, program, call⟩ invocation.function vars
            (Direct.lock context (Direct.guardOf invocation.function) { course with world }) := by
  unfold Remainder.instanceStep
  cases Invocation.bindInstance code invocation vars course.world with
  | error error => rfl
  | ok bound =>
      obtain ⟨vars, world⟩ := bound
      dsimp only
      cases locks : invocation.function.signature.callKind.isSynchronized with
      | false =>
          have runs : inner.advance.step = .runBody := by
            simp only [Call.advance, CallStep.next, binds, kind, locks, Bool.false_eq_true, if_false]
          have unguarded : Direct.guardOf invocation.function = none := by
            simp only [Direct.guardOf, locks, Bool.false_eq_true, if_false]
          have running : Running invocation.function inner.advance := ⟨kind, owner, runs⟩
          rw [if_neg (by rw [runs]; decide), bodyStep_fresh same invocation running, unguarded]
          rfl
      | true =>
          have waits : inner.advance.step = .acquireGuard := by
            simp only [Call.advance, CallStep.next, binds, kind, locks, if_true]
          have runs : inner.advance.advance.step = .runBody := by
            simp only [Call.advance, CallStep.next, binds, kind, locks, if_true]
          obtain ⟨className, owned⟩ : ∃ className, invocation.function.owner = some className := by
            cases dispatched : invocation.function.signature.callKind with
            | function | method => simp [dispatched, CallKind.isSynchronized] at locks
            | dispatched => exact Signature.owner_of_dispatched dispatched
          have guarded : Direct.guardOf invocation.function = some className := by
            simp only [Direct.guardOf, locks, if_true, owned]
          have running : Running invocation.function inner.advance.advance := ⟨kind, owner, runs⟩
          rw [if_pos waits, Remainder.guardStep, bodyStep_fresh same invocation running, guarded,
            owned]
          rfl

theorem steps_fresh (same : ∀ invocation, whole invocation {} = call invocation)
    (invocation : Invocation) (course : Course) :
    Remainder.steps ⟨code, context, program, whole⟩ invocation invocation.function.newCall
        (opened invocation.function.newCall) course =
      Direct.invoke ⟨code, context, program, call⟩ invocation course := by
  change Remainder.paramsStep _ invocation invocation.function.newCall [] _ course = _
  unfold Remainder.paramsStep Direct.invoke
  dsimp only
  cases bound : invocation.function.params.bind invocation.args [] with
  | mk vars failure =>
      cases failure with
      | some error => rfl
      | none =>
          dsimp only
          cases binds : invocation.function.signature.callKind.bindsInstance with
          | false =>
              have runs : invocation.function.newCall.advance.step = .runBody := by
                simp only [Call.advance, CallStep.next, Function.newCall, binds,
                  Bool.false_eq_true, if_false]
              have free : invocation.function.signature.callKind = .function := by
                cases kind : invocation.function.signature.callKind with
                | function => rfl
                | method | dispatched => simp [kind, CallKind.bindsInstance] at binds
              have unowned : invocation.function.owner = none := Signature.owner_of_function free
              have unguarded : Direct.guardOf invocation.function = none := by
                simp only [Direct.guardOf, unowned, ite_self]
              rw [if_neg (by rw [runs]; decide), bodyStep_fresh same invocation ⟨rfl, rfl, runs⟩,
                unguarded]
              simp only [Invocation.bindInstance, unowned]
              rfl
          | true =>
              have further : invocation.function.newCall.advance.step = .bindInstance := by
                simp only [Call.advance, CallStep.next, Function.newCall, binds, if_true]
              rw [if_pos further]
              exact instanceStep_fresh same invocation rfl rfl further _ _

end

theorem run_fresh (code : Code) (context : ContextId) (depth : Nat) (invocation : Invocation) :
    Remainder.run code context depth invocation {} =
      Direct.run code context depth invocation := by
  induction depth generalizing invocation with
  | zero => rfl
  | succ depth ih =>
      funext course
      rw [Remainder.run, Direct.run]
      simp only [Invocation.entered, Frame.call?, steps_fresh ih]

end ScriptEngine.Agreement
