import ScriptEngine.Proofs.Observing
/-! Evaluations in worlds that agree end alike: with one result, behind as many yields, and in worlds
that agree again. -/

namespace ScriptEngine

def FrameState.Settled : FrameState → Prop
  | .call held => held.step = .acquireGuard ∨ held.step = .runBody
  | .fresh | .block _ | .wait _ | .eval => True

mutual

def Frame.Settled : Frame → Prop
  | ⟨state, _, _, children⟩ => state.Settled ∧ Frame.SettledIn children

def Frame.SettledIn : List (Nat × Frame) → Prop
  | [] => True
  | (_, child) :: rest => child.Settled ∧ Frame.SettledIn rest

end

namespace Frame

variable {frame : Frame}

theorem settledIn_iff {children : List (Nat × Frame)} :
    SettledIn children ↔ ∀ entry ∈ children, entry.2.Settled := by
  induction children with
  | nil => simp [SettledIn]
  | cons entry rest ih =>
      obtain ⟨slot, child⟩ := entry
      simp [SettledIn, ih]

theorem settled_iff : frame.Settled ↔
    frame.state.Settled ∧ ∀ entry ∈ frame.children, entry.2.Settled := by
  obtain ⟨state, vars, temps, children⟩ := frame
  rw [Settled, settledIn_iff]

theorem settled_fresh : ({} : Frame).Settled := by
  apply settled_iff.mpr
  constructor
  · exact True.intro
  · intro entry absurdity
    cases absurdity

theorem Settled.child (settled : frame.Settled) (slot : Nat) : (frame.child slot).Settled := by
  unfold Frame.child child?
  cases found : frame.children.lookup slot with
  | none => exact settled_fresh
  | some child =>
      have among : (slot, child) ∈ frame.children := by
        obtain ⟨before, behind, split, _⟩ := List.lookup_eq_some_iff.mp found
        rw [split]
        simp
      exact (settled_iff.mp settled).2 _ among

theorem Settled.rest {later : Frame} (settled : frame.Settled) (state : later.state.Settled)
    (children : ∀ entry ∈ later.children, entry ∈ frame.children) : later.Settled := by
  apply settled_iff.mpr
  constructor
  · exact state
  · intro entry among
    exact (settled_iff.mp settled).2 entry (children entry among)

theorem Settled.block (settled : frame.Settled) (next : Nat) :
    Frame.Settled { frame with state := .block next } :=
  @Settled.rest _ { frame with state := .block next } settled True.intro fun _ among => among

theorem Settled.passed (settled : frame.Settled) (place : Nat) :
    Frame.Settled { frame.withoutChild place with state := .block (place + 1) } :=
  @Settled.rest _ { frame.withoutChild place with state := .block (place + 1) } settled True.intro
    fun _ among => (List.mem_filter.mp among).1

theorem Settled.startEval (settled : frame.Settled) : frame.startEval.Settled := by
  unfold Frame.startEval
  split
  · exact settled
  · refine @Settled.rest _ { frame.clearProgress with state := .eval } settled True.intro ?_
    intro entry absurdity
    cases absurdity

theorem startEval_settled (frame : Frame) : frame.startEval.state.Settled := by
  rw [state_startEval]
  exact True.intro

theorem Settled.entered (settled : frame.Settled) (invocation : Invocation) :
    ((Invocation.entered invocation frame).2.child 0).Settled ∧
      ((Invocation.entered invocation frame).1.step = .bindParams ∨
        (Invocation.entered invocation frame).1.step = .bindInstance → frame.call? = none) := by
  unfold Invocation.entered
  cases held : frame.call? with
  | none =>
      exact ⟨settled_fresh, fun _ => rfl⟩
  | some call =>
      refine ⟨settled.child 0, fun binding => ?_⟩
      have state := (settled_iff.mp settled).1
      unfold Frame.call? at held
      split at held
      · rename_i running
        cases held
        rw [running] at state
        rcases state with queued | runs
        · rw [queued] at binding
          rcases binding with other | other
          · cases other
          · cases other
        · rw [runs] at binding
          rcases binding with other | other
          · cases other
          · cases other
      · cases held

end Frame

namespace Remainder

open Direct (Course Ending Executed)

variable {code : Code}

structure Abreast (code : Code) (course copy : Course) : Prop where
  world : course.world.Agrees code copy.world
  yields : copy.yields = course.yields

structure Matches {α : Type} (code : Code) (yields : Nat) (ending copy : Ending α) : Prop where
  result : copy.result = ending.result
  abreast : Abreast code ending.course copy.course
  later : yields ≤ ending.course.yields

namespace Matches

variable {α β : Type} {yields : Nat}

theorem of_result {course copy : Course} (abreast : Abreast code course copy)
    (result : Except RuntimeError α) :
    Matches code course.yields (⟨result, course⟩ : Ending α) ⟨result, copy⟩ :=
  ⟨rfl, abreast, Nat.le_refl _⟩

theorem andThen {ending copy : Ending α} {next instead : α → Course → Ending β}
    (first : Matches code yields ending copy)
    (second : ∀ value course other, ending.result = .ok value → Abreast code course other →
      Matches code course.yields (next value course) (instead value other)) :
    Matches code yields (ending.andThen next) (copy.andThen instead) := by
  obtain ⟨result, course⟩ := ending
  obtain ⟨same, other⟩ := copy
  obtain ⟨rfl, abreast, later⟩ := first
  cases same with
  | error error => exact ⟨rfl, abreast, later⟩
  | ok value =>
      have continued := second value course other rfl abreast
      exact ⟨continued.result, continued.abreast, Nat.le_trans later continued.later⟩

end Matches

structure Steady (scene : Scene) : Prop where
  consistent : scene.code.Consistent
  call : ∀ (invocation : Invocation) (frame : Frame) (course copy : Course),
    scene.code.Owns invocation.function → frame.Settled →
    (frame.call? = none → invocation.receiver = none →
      scene.code.CalledFreely invocation.function) →
    Abreast scene.code course copy →
    Matches scene.code course.yields (scene.call invocation frame course)
      (scene.call invocation frame copy)

section

variable {scene : Scene} {course copy : Course}

theorem operand_matches {slot : Nat} {evaluate : Frame → Course → Ending Value} {frame : Frame}
    (evaluated : ∀ course copy, Abreast code course copy →
      Matches code course.yields (evaluate (frame.child slot) course)
        (evaluate (frame.child slot) copy))
    (abreast : Abreast code course copy) :
    Matches code course.yields (operand slot evaluate frame course)
      (operand slot evaluate frame copy) := by
  unfold operand
  split
  · exact .of_result abreast _
  · apply (evaluated course copy abreast).andThen
    intro value between other _ abreast
    exact .of_result abreast _

theorem operand_settled {slot : Nat} {evaluate : Frame → Course → Ending Value}
    {frame later : Frame} (settled : frame.Settled) (state : frame.state.Settled)
    (done : (operand slot evaluate frame course).result = .ok later) :
    later.Settled ∧ later.state = frame.state := by
  unfold operand at done
  split at done
  · cases done
    exact ⟨settled, rfl⟩
  · generalize evaluate (frame.child slot) course = ended at done
    obtain ⟨result, after⟩ := ended
    cases result with
    | error error => cases done
    | ok value =>
        cases done
        constructor
        · refine @Frame.Settled.rest frame
            { frame.withoutChild slot with temps := frame.temps ++ [value] } settled state ?_
          intro entry among
          exact (List.mem_filter.mp among).1
        · rfl

theorem callee_same {frame : Frame}
    {here there : Except CompileCause Function × Option FunctionId} (same : there.1 = here.1)
    (kept : ∀ function found, here = (.ok function, found) → found = some function.callable.id)
    (also : ∀ function found, there = (.ok function, found) → found = some function.callable.id) :
    Evaluation.callee code frame none there = Evaluation.callee code frame none here := by
  obtain ⟨result, found⟩ := here
  obtain ⟨copied, other⟩ := there
  dsimp only at same
  subst same
  unfold Evaluation.callee
  split
  · rfl
  · cases copied with
    | error cause => rfl
    | ok function =>
        rw [kept function found rfl, also function other rfl]

theorem enter_matches (steady : Steady scene) {site : CallSite}
    {slot : Nat} {callee : Evaluation.Callee} {receiver : Option Handle} {args : Variables}
    {frame : Frame} (settled : frame.Settled)
    (found : ∀ function kept, callee = .found function kept →
      scene.code.Owns function ∧ ((frame.child slot).call? = none → receiver = none →
        scene.code.CalledFreely function))
    (abreast : Abreast scene.code course copy) :
    Matches scene.code course.yields (enter scene site slot callee receiver args frame course)
      (enter scene site slot callee receiver args frame copy) := by
  unfold enter
  cases callee with
  | gone => exact .of_result abreast _
  | notFound cause => exact .of_result abreast _
  | found function kept =>
      obtain ⟨owned, freely⟩ := found function kept rfl
      exact steady.call _ _ { course with world := course.world.keepCallee _ kept }
        { copy with world := copy.world.keepCallee _ kept } owned (settled.child slot) freely
        ⟨abreast.world.keepCallee _ _, abreast.yields⟩

theorem callSite_matches (steady : Steady scene) {site : CallSite}
    (placed : scene.code.Site scene.program site) (types : List DataType) {frame : Frame}
    (settled : frame.Settled) (abreast : Abreast scene.code course copy) :
    Matches scene.code course.yields (callSite scene site types frame course)
      (callSite scene site types frame copy) := by
  have sites := abreast.world.callees scene.program site placed
  unfold Code.resolveSite at sites
  unfold callSite
  rw [abreast.world.heap]
  dsimp only
  by_cases onReceiver : site.hasReceiver = true
  · simp only [if_pos onReceiver] at sites ⊢
    cases Evaluation.receiver course.world.heap site frame.temps with
    | error error => exact .of_result abreast _
    | ok receiver =>
        obtain ⟨handle, className⟩ := receiver
        dsimp only
        rw [callee_same (sites className _) (fun _ _ => Overload.resolveAlong_kept)
          (fun _ _ => Overload.resolveAlong_kept)]
        apply enter_matches steady settled _ abreast
        intro function kept chosen
        rcases Evaluation.callee_chosen chosen with ⟨call, _, loaded⟩ | ⟨_, resolved⟩
        · exact ⟨steady.consistent.owns loaded, fun _ given => nomatch given⟩
        · exact ⟨steady.consistent.resolveMethod resolved, fun _ given => nomatch given⟩
  · simp only [if_neg onReceiver] at sites ⊢
    rw [callee_same (sites "" _) (fun _ _ => Overload.resolve_kept)
      (fun _ _ => Overload.resolve_kept)]
    apply enter_matches steady settled _ abreast
    intro function kept chosen
    rcases Evaluation.callee_chosen chosen with ⟨call, held, loaded⟩ | ⟨_, resolved⟩
    · refine ⟨steady.consistent.owns loaded, fun untold => ?_⟩
      rw [held] at untold
      cases untold
    · exact ⟨steady.consistent.resolveCall resolved, fun _ _ => ⟨_, _, _, _, _, resolved⟩⟩

theorem exprs_settled {vars : Variables} {operands : List Expr} :
    ∀ {slot : Nat} {frame later : Frame} {course : Course}, frame.Settled →
      frame.state.Settled → (exprs scene vars slot operands frame course).result = .ok later →
      later.Settled := by
  induction operands with
  | nil =>
      intro slot frame later course settled _ done
      rw [exprs] at done
      cases done
      exact settled
  | cons first rest ih =>
      intro slot frame later course settled state done
      rw [exprs, Ending.andThen] at done
      split at done
      · rename_i between reached
        obtain ⟨between, kept⟩ := operand_settled settled state reached
        exact ih between (kept ▸ state) done
      · cases done

def Placed (scene : Scene) (sites : List CallSite) : Prop :=
  ∀ site ∈ sites, scene.code.Site scene.program site

theorem Placed.of_append {sites more : List CallSite} (placed : Placed scene (sites ++ more)) :
    Placed scene sites ∧ Placed scene more := by
  constructor
  · intro site among
    exact placed site (List.mem_append_left _ among)
  · intro site among
    exact placed site (List.mem_append_right _ among)

mutual

theorem expr_matches (steady : Steady scene) (vars : Variables) :
    ∀ (expr : Expr) {frame : Frame} {course copy : Course}, Placed scene expr.sites →
      frame.Settled → Abreast scene.code course copy →
      Matches scene.code course.yields (Remainder.expr scene vars expr frame course)
        (Remainder.expr scene vars expr frame copy)
  | .literal _ _ value, frame, course, copy, _, _, abreast => .of_result abreast _
  | .var _ span target, frame, course, copy, _, _, abreast => by
      rw [Remainder.expr, Remainder.expr, abreast.world.heap]
      exact .of_result abreast _
  | .negate type span inner, frame, course, copy, placed, settled, abreast => by
      rw [Remainder.expr, Remainder.expr]
      refine (operand_matches (fun _ _ =>
        expr_matches steady vars inner placed (settled.startEval.child 0)) abreast).andThen ?_
      intro later between other _ abreast
      exact .of_result abreast _
  | .binary type span operator left right, frame, course, copy, placed, settled, abreast => by
      rw [Remainder.expr, Remainder.expr]
      obtain ⟨lefts, rights⟩ := placed.of_append
      refine (operand_matches (fun _ _ =>
        expr_matches steady vars left lefts (settled.startEval.child 0)) abreast).andThen ?_
      intro later between other reached abreast
      obtain ⟨settled, _⟩ := operand_settled settled.startEval frame.startEval_settled reached
      refine (operand_matches (fun _ _ =>
        expr_matches steady vars right rights (settled.child 1)) abreast).andThen ?_
      intro later between other _ abreast
      exact .of_result abreast _
  | .call type span site operands, frame, course, copy, placed, settled, abreast => by
      rw [Remainder.expr, Remainder.expr]
      refine (exprs_matches steady vars operands
        (fun site among => placed site (List.mem_cons_of_mem _ among)) settled.startEval
        frame.startEval_settled abreast).andThen ?_
      intro later between other reached abreast
      exact callSite_matches steady (placed site (List.mem_cons_self ..)) _
        (exprs_settled settled.startEval frame.startEval_settled reached) abreast

theorem exprs_matches (steady : Steady scene) (vars : Variables) :
    ∀ (operands : List Expr) {slot : Nat} {frame : Frame} {course copy : Course},
      Placed scene (Expr.sitesIn operands) → frame.Settled → frame.state.Settled →
      Abreast scene.code course copy →
      Matches scene.code course.yields (exprs scene vars slot operands frame course)
        (exprs scene vars slot operands frame copy)
  | [], slot, frame, course, copy, _, _, _, abreast => .of_result abreast _
  | first :: rest, slot, frame, course, copy, placed, settled, state, abreast => by
      rw [exprs, exprs]
      obtain ⟨firsts, rests⟩ := placed.of_append
      refine (operand_matches (fun _ _ =>
        expr_matches steady vars first firsts (settled.child slot)) abreast).andThen ?_
      intro later between other reached abreast
      obtain ⟨settled, kept⟩ := operand_settled settled state reached
      exact exprs_matches steady vars rest rests settled (kept ▸ state) abreast

end

theorem passTime_matches {α : Type} (abreast : Abreast code course copy) (value : α)
    (count : Nat) : Matches code course.yields (Ending.pure value (Direct.passTime count course))
      (.pure value (Direct.passTime count copy)) where
  result := rfl
  abreast := ⟨abreast.world, congrArg (· + count) abreast.yields⟩
  later := Nat.le_add_right ..

theorem assign_matches (abreast : Abreast code course copy) (vars : Variables) (target : Target)
    (span : Span) (value : Value) :
    Matches code course.yields (Direct.assign vars target span value course)
      (Direct.assign vars target span value copy) := by
  unfold Direct.assign
  rw [abreast.world.heap]
  cases Evaluation.writeVariable course.world.heap vars target value span with
  | error error => exact .of_result abreast _
  | ok written => exact ⟨rfl, ⟨abreast.world.withHeap _, abreast.yields⟩, Nat.le_refl _⟩

mutual

theorem stmt_matches (steady : Steady scene) :
    ∀ (stmt : Stmt) {frame : Frame} (vars : Variables) {course copy : Course},
      Placed scene stmt.sites → frame.Settled → Abreast scene.code course copy →
      Matches scene.code course.yields (Remainder.stmt scene stmt frame vars course)
        (Remainder.stmt scene stmt frame vars copy)
  | .block _ body, frame, vars, course, copy, placed, settled, abreast =>
      stmts_matches steady body vars placed (settled.block _) abreast
  | .return _ none, frame, vars, course, copy, _, _, abreast => .of_result abreast _
  | .return _ (some value), frame, vars, course, copy, placed, settled, abreast => by
      rw [Remainder.stmt, Remainder.stmt]
      refine (expr_matches steady vars value placed settled abreast).andThen ?_
      intro value between other _ abreast
      exact .of_result abreast _
  | .wait _ count, frame, vars, course, copy, placed, settled, abreast => by
      rw [Remainder.stmt, Remainder.stmt]
      split
      · exact passTime_matches abreast _ _
      · refine (expr_matches steady vars count placed settled abreast).andThen ?_
        intro value between other _ abreast
        exact passTime_matches abreast _ _
  | .declare _ _ _ _ none, frame, vars, course, copy, _, _, abreast => .of_result abreast _
  | .declare span id name type (some init), frame, vars, course, copy, placed, settled,
      abreast => by
      rw [Remainder.stmt, Remainder.stmt]
      refine (expr_matches steady vars init placed settled abreast).andThen ?_
      intro value between other _ abreast
      cases Evaluation.convert value type span with
      | error error => exact .of_result abreast _
      | ok stored => exact .of_result abreast _
  | .assign span target value, frame, vars, course, copy, placed, settled, abreast => by
      rw [Remainder.stmt, Remainder.stmt]
      refine (expr_matches steady vars value placed settled abreast).andThen ?_
      intro value between other _ abreast
      exact assign_matches abreast vars target span value
  | .expr value, frame, vars, course, copy, placed, settled, abreast => by
      rw [Remainder.stmt, Remainder.stmt]
      refine (expr_matches steady vars value placed settled abreast).andThen ?_
      intro value between other _ abreast
      exact .of_result abreast _

theorem stmts_matches (steady : Steady scene) :
    ∀ (body : List Stmt) {place : Nat} {frame : Frame} (vars : Variables) {course copy : Course},
      Placed scene (Stmt.sitesIn body) → frame.Settled → Abreast scene.code course copy →
      Matches scene.code course.yields (stmts scene place body frame vars course)
        (stmts scene place body frame vars copy)
  | [], place, frame, vars, course, copy, _, _, abreast => .of_result abreast _
  | first :: rest, place, frame, vars, course, copy, placed, settled, abreast => by
      rw [stmts, stmts]
      obtain ⟨firsts, rests⟩ := placed.of_append
      split
      · exact stmts_matches steady rest vars rests settled abreast
      · refine (stmt_matches steady first vars firsts (settled.child place) abreast).andThen ?_
        intro executed between other _ abreast
        obtain ⟨completion, vars⟩ := executed
        cases completion with
        | next => exact stmts_matches steady rest vars rests (settled.passed place) abreast
        | «return» value => exact .of_result abreast _

end

section

variable {invocation : Invocation} {call : Call} {vars : Variables} {frame : Frame}

theorem Abreast.withGuards (abreast : Abreast code course copy) (guards others : GuardTable) :
    Abreast code (course.withGuards guards) (copy.withGuards others) :=
  ⟨abreast.world.withGuards guards others, abreast.yields⟩

theorem Abreast.withWorld {world other : World} (abreast : Abreast code course copy)
    (agrees : world.Agrees code other) :
    Abreast code { course with world } { copy with world := other } :=
  ⟨agrees, abreast.yields⟩

theorem Abreast.lock (abreast : Abreast code course copy) (context : ContextId)
    (className : String) :
    Abreast code (Direct.lock context (some className) course)
      (Direct.lock context (some className) copy) :=
  abreast.withGuards _ _

theorem Abreast.unlock (abreast : Abreast code course copy) (context : ContextId)
    (owner : Option String) :
    Abreast code (Direct.unlock context owner course) (Direct.unlock context owner copy) := by
  cases owner with
  | none => exact abreast
  | some className => exact abreast.withGuards _ _

theorem Matches.unlock {α : Type} {yields : Nat} {ending instead : Ending α}
    (ended : Matches code yields ending instead) (context : ContextId) (owner : Option String) :
    Matches code yields
      { ending with course := Direct.unlock context owner ending.course }
      { instead with course := Direct.unlock context owner instead.course } where
  result := ended.result
  abreast := ended.abreast.unlock context owner
  later := by
    cases owner with
    | none => exact ended.later
    | some className => exact ended.later

theorem bodyStep_matches (steady : Steady scene)
    (placed : Placed scene invocation.function.sites) (settled : (frame.child 0).Settled)
    (abreast : Abreast scene.code course copy) :
    Matches scene.code course.yields (bodyStep scene invocation call vars frame course)
      (bodyStep scene invocation call vars frame copy) := by
  unfold bodyStep
  apply Matches.unlock
  refine (stmts_matches steady invocation.function.body.stmts vars placed
    (settled.block (frame.child 0).nextStatement) abreast).andThen ?_
  intro executed between other _ abreast
  exact .of_result abreast _

theorem guardStep_matches (steady : Steady scene)
    (placed : Placed scene invocation.function.sites) (settled : (frame.child 0).Settled)
    (abreast : Abreast scene.code course copy) :
    Matches scene.code course.yields (guardStep scene invocation call vars frame course)
      (guardStep scene invocation call vars frame copy) :=
  bodyStep_matches steady placed settled (abreast.lock _ _)

theorem instanceStep_matches (steady : Steady scene)
    (placed : Placed scene invocation.function.sites)
    (freely : invocation.receiver = none → scene.code.CalledFreely invocation.function)
    (settled : (frame.child 0).Settled) (abreast : Abreast scene.code course copy) :
    Matches scene.code course.yields (instanceStep scene invocation call vars frame course)
      (instanceStep scene invocation call vars frame copy) := by
  unfold instanceStep
  have bound := bindInstance_alike abreast.world freely vars
  generalize Invocation.bindInstance scene.code invocation vars course.world = here at bound ⊢
  generalize Invocation.bindInstance scene.code invocation vars copy.world = there at bound ⊢
  cases bound with
  | failed error => exact .of_result abreast _
  | done vars agrees =>
      dsimp only
      split
      · exact guardStep_matches steady placed settled (abreast.withWorld agrees)
      · exact bodyStep_matches steady placed settled (abreast.withWorld agrees)

theorem paramsStep_matches (steady : Steady scene)
    (placed : Placed scene invocation.function.sites)
    (freely : invocation.receiver = none → scene.code.CalledFreely invocation.function)
    (settled : (frame.child 0).Settled) (abreast : Abreast scene.code course copy) :
    Matches scene.code course.yields (paramsStep scene invocation call vars frame course)
      (paramsStep scene invocation call vars frame copy) := by
  unfold paramsStep
  split
  · exact .of_result abreast _
  · dsimp only
    split
    · exact instanceStep_matches steady placed freely settled abreast
    · exact bodyStep_matches steady placed settled abreast

theorem steps_matches (steady : Steady scene)
    (placed : Placed scene invocation.function.sites)
    (freely : call.step = .bindParams ∨ call.step = .bindInstance →
      invocation.receiver = none → scene.code.CalledFreely invocation.function)
    (settled : (frame.child 0).Settled) (abreast : Abreast scene.code course copy) :
    Matches scene.code course.yields (steps scene invocation call frame course)
      (steps scene invocation call frame copy) := by
  unfold steps
  cases step : call.step with
  | bindParams => exact paramsStep_matches steady placed (freely (Or.inl step)) settled abreast
  | bindInstance => exact instanceStep_matches steady placed (freely (Or.inr step)) settled abreast
  | acquireGuard => exact guardStep_matches steady placed settled abreast
  | runBody => exact bodyStep_matches steady placed settled abreast

end

end

theorem run_matches {code : Code} (consistent : code.Consistent) (context : ContextId)
    (depth : Nat) :
    ∀ (invocation : Invocation) (frame : Frame) (course copy : Course),
      code.Owns invocation.function → frame.Settled →
      (frame.call? = none → invocation.receiver = none →
        code.CalledFreely invocation.function) →
      Abreast code course copy →
      Matches code course.yields (run code context depth invocation frame course)
        (run code context depth invocation frame copy) := by
  induction depth with
  | zero =>
      intro invocation frame course copy _ _ _ abreast
      exact .of_result abreast _
  | succ depth ih =>
      intro invocation frame course copy owned settled freely abreast
      let scene : Scene := ⟨code, context, invocation.function.program, run code context depth⟩
      have steady : Steady scene := ⟨consistent, ih⟩
      have placed : Placed scene invocation.function.sites :=
        fun site among => ⟨invocation.function, owned, rfl, among⟩
      obtain ⟨settled, binds⟩ := settled.entered invocation
      have ended := steps_matches steady placed (fun binding => freely (binds binding)) settled
        abreast
      exact ⟨congrArg (Except.mapError _) ended.result, ended.abreast, ended.later⟩

end Remainder

end ScriptEngine
