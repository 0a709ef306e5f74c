import ScriptEngine.Proofs.Finishing
import ScriptEngine.Proofs.MutualExclusion
import ScriptEngine.Proofs.Refusals
import Mathlib.Data.Rat.Floor
/-! How often a call yields. The waits that a call executes are listed along its evaluation in one go,
each with the value of its count and those of nested calls where the calls are made. Under gates that
decline nothing, and while no guard is in other hands, the call yields as often as its waits ask for
together, and then it is over. -/

namespace ScriptEngine

def longestWait : Nat := 2 ^ 32 - 1

def clampedWait (number : ℚ) : Nat :=
  (max 0 (min (number.num.tdiv number.den) longestWait)).toNat

def Decoded.exact (negative : Bool) (significand : Nat) (exponent : Int) : ℚ :=
  (if negative then -1 else 1) * significand * 2 ^ exponent

def Value.asks : Value → Nat
  | .int number => clampedWait number.toInt
  | .float number =>
      match Binary64.decode number with
      | .nan => 0
      | .infinite negative => if negative then 0 else longestWait
      | .finite negative significand exponent =>
          clampedWait (Decoded.exact negative significand exponent)
  | .bool _ | .string _ | .object _ | .null | .void => 0

theorem clampedWait_int (number : Int) :
    clampedWait number = min number.toNat longestWait := by
  simp only [clampedWait, Rat.num_intCast, Rat.den_intCast, Nat.cast_one, Int.tdiv_one]
  omega

theorem tdiv_num_den {number : ℚ} (positive : 0 ≤ number) :
    number.num.tdiv number.den = ⌊number⌋ := by
  rw [Int.tdiv_eq_ediv_of_nonneg (Rat.num_nonneg.mpr positive), Rat.floor_def']

theorem clampedWait_of_nonneg {number : ℚ} (positive : 0 ≤ number) :
    clampedWait number = min ⌊number⌋.toNat longestWait := by
  rw [clampedWait, tdiv_num_den positive]
  omega

theorem clampedWait_of_nonpos {number : ℚ} (negative : number ≤ 0) : clampedWait number = 0 := by
  have below : number.num.tdiv number.den ≤ 0 := by
    have opposite : 0 ≤ (-number.num).tdiv number.den :=
      Int.tdiv_nonneg (by simpa using Rat.num_nonpos.mpr negative) (Int.natCast_nonneg _)
    rw [Int.neg_tdiv] at opposite
    omega
  simp only [clampedWait]
  omega

theorem Decoded.exact_nonneg (significand : Nat) (exponent : Int) :
    0 ≤ exact false significand exponent :=
  mul_nonneg (mul_nonneg zero_le_one (Nat.cast_nonneg significand)) (zpow_nonneg zero_le_two exponent)

theorem Decoded.exact_nonpos (significand : Nat) (exponent : Int) :
    exact true significand exponent ≤ 0 := by
  have opposite : exact true significand exponent = -exact false significand exponent := by
    simp [exact]
  rw [opposite]
  exact neg_nonpos_of_nonneg (exact_nonneg significand exponent)

theorem Decoded.floor_exact (significand : Nat) (exponent : Int) :
    ⌊exact false significand exponent⌋ =
      (significand <<< exponent.toNat >>> (-exponent).toNat : Nat) := by
  have scaled : exact false significand exponent =
      ((significand * 2 ^ exponent.toNat : Nat) : ℚ) / ((2 ^ (-exponent).toNat : Nat) : ℚ) := by
    have split : exponent = (exponent.toNat : Int) - ((-exponent).toNat : Int) := by omega
    have power : (2 : ℚ) ^ exponent = 2 ^ exponent.toNat / 2 ^ (-exponent).toNat := by
      conv_lhs => rw [split, zpow_sub₀ two_ne_zero, zpow_natCast, zpow_natCast]
    rw [exact, power]
    push_cast
    simp [mul_div_assoc]
  rw [scaled, Rat.floor_natCast_div_natCast, Nat.shiftLeft_eq, Nat.shiftRight_eq_div_pow]
  norm_cast

theorem toInt_ofIntClamp_toNat (whole : Nat) :
    min (Int64.ofIntClamp whole).toInt.toNat longestWait = min whole longestWait := by
  have least : Int64.minValue.toInt = -2 ^ 63 := by decide
  have greatest : Int64.maxValue.toInt = 2 ^ 63 - 1 := by decide
  unfold Int64.ofIntClamp longestWait
  split
  · split
    · rw [Int64.toInt_ofIntLE]
      rfl
    · rw [greatest] at *
      omega
  · rw [least] at *
    omega

theorem toInt_ofIntClamp_neg (whole : Nat) : (Int64.ofIntClamp (-whole)).toInt.toNat = 0 := by
  have least : Int64.minValue.toInt = -2 ^ 63 := by decide
  have greatest : Int64.maxValue.toInt = 2 ^ 63 - 1 := by decide
  unfold Int64.ofIntClamp
  split
  · split
    · rw [Int64.toInt_ofIntLE]
      omega
    · rw [greatest] at *
      omega
  · rw [least]
    rfl

theorem Value.waitCount_eq_asks (value : Value) : value.waitCount = value.asks := by
  cases value with
  | int number => exact (clampedWait_int number.toInt).symm
  | float number =>
      simp only [waitCount, asks, Binary64.truncate]
      cases Binary64.decode number with
      | nan => rfl
      | infinite negative => cases negative <;> decide
      | finite negative significand exponent =>
          cases negative with
          | false =>
              dsimp only
              rw [clampedWait_of_nonneg (Decoded.exact_nonneg ..), Decoded.floor_exact]
              exact toInt_ofIntClamp_toNat _
          | true =>
              dsimp only
              rw [clampedWait_of_nonpos (Decoded.exact_nonpos ..), if_pos rfl,
                toInt_ofIntClamp_neg, Nat.zero_min]
  | bool | string | object | null | void => rfl

namespace Direct

/-- What is listed of the evaluations that come next; where something failed there are none. -/
def Ending.listed {α β : Type} (first : Ending α) (next : α → Course → List β) : List β :=
  match first.result with
  | .ok value => next value first.course
  | .error _ => []

section

variable (scene : Scene) (nested : Invocation → Course → List Value)

def enterWaits (site : CallSite) (receiver : Option Handle) (args : Variables)
    (resolved : Except CompileCause Function × Option FunctionId) (course : Course) : List Value :=
  match resolved with
  | (.error _, _) => []
  | (.ok function, kept) =>
      let world := course.world.keepCallee ⟨scene.program, site.offset⟩ kept
      nested ⟨function, receiver, args, some site.span, scene.program⟩ { course with world }

def siteWaits (site : CallSite) (types : List DataType) (operands : List Value) (course : Course) :
    List Value :=
  let kept := some (course.world.callee ⟨scene.program, site.offset⟩ site.callee)
  if site.hasReceiver then
    let types := types.drop 1
    match Evaluation.receiver course.world.heap site operands with
    | .error _ => []
    | .ok (handle, className) =>
        enterWaits scene nested site (some handle) (Evaluation.arguments types (operands.drop 1))
          (scene.code.resolveMethod className kept site.name types) course
  else
    enterWaits scene nested site none (Evaluation.arguments types operands)
      (scene.code.resolveCall scene.program kept site.name types) course

mutual

def exprWaits (vars : Variables) : Expr → Course → List Value
  | .literal .., _ | .var .., _ => []
  | .negate _ _ inner, course => exprWaits vars inner course
  | .binary _ _ _ left right, course =>
      exprWaits vars left course ++
        (expr scene vars left course).listed fun _ course => exprWaits vars right course
  | .call _ _ site operands, course =>
      exprsWaits vars operands course ++
        (exprs scene vars operands course).listed fun values course =>
          siteWaits scene nested site (operands.map Expr.type) values course

def exprsWaits (vars : Variables) : List Expr → Course → List Value
  | [], _ => []
  | first :: rest, course =>
      exprWaits vars first course ++
        (expr scene vars first course).listed fun _ course => exprsWaits vars rest course

end

mutual

def stmtWaits (vars : Variables) : Stmt → Course → List Value
  | .block _ body, course => stmtsWaits vars body course
  | .wait _ count, course =>
      exprWaits scene nested vars count course ++
        (expr scene vars count course).listed fun value _ => [value]
  | .return _ none, _ | .declare _ _ _ _ none, _ => []
  | .return _ (some value), course | .declare _ _ _ _ (some value), course
  | .assign _ _ value, course | .expr value, course => exprWaits scene nested vars value course

def stmtsWaits (vars : Variables) : List Stmt → Course → List Value
  | [], _ => []
  | first :: rest, course =>
      stmtWaits vars first course ++
        (stmt scene vars first course).listed fun executed course =>
          match executed with
          | (.next, vars) => stmtsWaits vars rest course
          | (.return _, _) => []

end

def invokeWaits (invocation : Invocation) (course : Course) : List Value :=
  let function := invocation.function
  match function.params.bind invocation.args [] with
  | (_, some _) => []
  | (vars, none) =>
      match Invocation.bindInstance scene.code invocation vars course.world with
      | .error _ => []
      | .ok (vars, world) =>
          stmtsWaits scene nested vars function.body.stmts
            (lock scene.context (guardOf function) { course with world })

end

def runWaits (code : Code) (context : ContextId) : Nat → Invocation → Course → List Value
  | 0, _, _ => []
  | depth + 1, invocation, course =>
      let scene : Scene := ⟨code, context, invocation.function.program, run code context depth⟩
      invokeWaits scene (runWaits code context depth) invocation course

/-- The waits of a call that the host makes on a stack. -/
def hostWaits (engine : Engine) (stack : Stack) (entry : EntryCall) : List Value :=
  match (entryFunction engine.code stack entry).1 with
  | .error _ => []
  | .ok function =>
      let invocation : Invocation :=
        ⟨function, entry.receiver.map Receiver.handle, entry.args, none, stack.program⟩
      runWaits engine.code stack.context engine.code.maxCallDepth invocation ⟨engine.world, 0⟩

def asked (waits : List Value) : Nat := (waits.map Value.asks).sum

theorem asked_append (first second : List Value) :
    asked (first ++ second) = asked first + asked second := by
  simp only [asked, List.map_append, List.sum_append]

def Ending.Counted {α : Type} (ending : Ending α) (course : Course) (waits : List Value) : Prop :=
  ending.course.yields = course.yields + asked waits

namespace Ending.Counted

variable {α β : Type} {first : Ending α} {course : Course} {waits : List Value}

theorem nil {ending : Ending α} (same : ending.course.yields = course.yields) :
    ending.Counted course [] := same

theorem andThen {next : α → Course → Ending β} {more : α → Course → List Value}
    (counted : first.Counted course waits)
    (behind : ∀ value course, (next value course).Counted course (more value course)) :
    (first.andThen next).Counted course (waits ++ first.listed more) := by
  obtain ⟨result, between⟩ := first
  unfold Counted at *
  cases result with
  | error error =>
      simp only [Ending.listed, List.append_nil]
      exact counted
  | ok value =>
      simp only [Ending.andThen_ok, Ending.listed, asked_append, behind]
      rw [← Nat.add_assoc, ← counted]

theorem andThen_same {next : α → Course → Ending β} (counted : first.Counted course waits)
    (same : ∀ value course, (next value course).course.yields = course.yields) :
    (first.andThen next).Counted course waits := by
  have counted : (first.andThen next).Counted course (waits ++ first.listed fun _ _ => []) :=
    counted.andThen fun value course => nil (same value course)
  have waitless : first.listed (fun _ _ => ([] : List Value)) = [] := by
    unfold Ending.listed
    split <;> rfl
  rw [waitless, List.append_nil] at counted
  exact counted

end Ending.Counted

def Scene.CountsCalls (scene : Scene) (nested : Invocation → Course → List Value) : Prop :=
  ∀ invocation course, (scene.call invocation course).Counted course (nested invocation course)

section

variable {scene : Scene} {nested : Invocation → Course → List Value}

theorem enter_counted
    (called : scene.CountsCalls nested) (site : CallSite) (receiver : Option Handle) (args : Variables)
    (resolved : Except CompileCause Function × Option FunctionId) (course : Course) :
    (enter scene site receiver args resolved course).Counted course
      (enterWaits scene nested site receiver args resolved course) := by
  obtain ⟨found, kept⟩ := resolved
  cases found with
  | error cause => exact .nil rfl
  | ok function => exact called _ { course with world := _ }

theorem callSite_counted
    (called : scene.CountsCalls nested) (site : CallSite) (types : List DataType) (operands : List Value)
    (course : Course) : (callSite scene site types operands course).Counted course
      (siteWaits scene nested site types operands course) := by
  unfold callSite siteWaits
  by_cases receives : site.hasReceiver = true
  · simp only [receives, if_true]
    cases Evaluation.receiver course.world.heap site operands with
    | error error => exact .nil rfl
    | ok found => exact enter_counted called ..
  · simp only [receives, Bool.false_eq_true, if_false]
    exact enter_counted called ..

mutual

theorem expr_counted
    (called : scene.CountsCalls nested) (vars : Variables) : ∀ (value : Expr) (course : Course),
    (expr scene vars value course).Counted course (exprWaits scene nested vars value course)
  | .literal .., _ | .var .., _ => by
      rw [expr, exprWaits]
      exact .nil rfl
  | .negate _ _ inner, course => by
      rw [expr, exprWaits]
      exact (expr_counted called vars inner course).andThen_same fun _ _ => rfl
  | .binary _ _ _ left right, course => by
      rw [expr, exprWaits]
      refine (expr_counted called vars left course).andThen fun _ course => ?_
      exact (expr_counted called vars right course).andThen_same fun _ _ => rfl
  | .call _ _ site operands, course => by
      rw [expr, exprWaits]
      exact (exprs_counted called vars operands course).andThen fun values course =>
        callSite_counted called site _ values course

theorem exprs_counted
    (called : scene.CountsCalls nested) (vars : Variables) : ∀ (values : List Expr) (course : Course),
    (exprs scene vars values course).Counted course (exprsWaits scene nested vars values course)
  | [], _ => by
      rw [exprs, exprsWaits]
      exact .nil rfl
  | first :: rest, course => by
      rw [exprs, exprsWaits]
      refine (expr_counted called vars first course).andThen fun _ course => ?_
      exact (exprs_counted called vars rest course).andThen_same fun _ _ => rfl

end

theorem assign_yields (vars : Variables) (target : Target) (span : Span) (value : Value)
    (course : Course) : (assign vars target span value course).course.yields = course.yields := by
  unfold assign
  split <;> rfl

mutual

theorem stmt_counted
    (called : scene.CountsCalls nested) : ∀ (step : Stmt) (vars : Variables) (course : Course),
    (stmt scene vars step course).Counted course (stmtWaits scene nested vars step course)
  | .block _ body, vars, course => by
      rw [stmt, stmtWaits]
      exact stmts_counted called body vars course
  | .wait _ count, vars, course => by
      rw [stmt, stmtWaits]
      refine (expr_counted called vars count course).andThen fun value course => ?_
      change course.yields + value.waitCount = course.yields + asked [value]
      simp only [asked, List.map_cons, List.map_nil, List.sum_cons, List.sum_nil, Nat.add_zero,
        Value.waitCount_eq_asks]
  | .return _ none, _, _ | .declare _ _ _ _ none, _, _ => by
      rw [stmt, stmtWaits]
      exact .nil rfl
  | .return _ (some value), vars, course | .expr value, vars, course => by
      rw [stmt, stmtWaits]
      exact (expr_counted called vars value course).andThen_same fun _ _ => rfl
  | .declare span _ _ type (some value), vars, course => by
      rw [stmt, stmtWaits]
      refine (expr_counted called vars value course).andThen_same fun value course => ?_
      cases Evaluation.convert value type span <;> rfl
  | .assign span target value, vars, course => by
      rw [stmt, stmtWaits]
      exact (expr_counted called vars value course).andThen_same (assign_yields vars target span)

theorem stmts_counted
    (called : scene.CountsCalls nested) : ∀ (steps : List Stmt) (vars : Variables) (course : Course),
    (stmts scene vars steps course).Counted course (stmtsWaits scene nested vars steps course)
  | [], _, _ => by
      rw [stmts, stmtsWaits]
      exact .nil rfl
  | first :: rest, vars, course => by
      rw [stmts, stmtsWaits]
      refine (stmt_counted called first vars course).andThen fun executed course => ?_
      obtain ⟨completion, vars⟩ := executed
      cases completion with
      | next => exact stmts_counted called rest vars course
      | «return» value => exact .nil rfl

end

theorem lock_yields (context : ContextId) (owner : Option String) (course : Course) :
    (lock context owner course).yields = course.yields := by
  cases owner <;> rfl

theorem unlock_yields (context : ContextId) (owner : Option String) (course : Course) :
    (unlock context owner course).yields = course.yields := by
  cases owner <;> rfl

theorem invoke_counted
    (called : scene.CountsCalls nested) (invocation : Invocation) (course : Course) :
    (invoke scene invocation course).Counted course
      (invokeWaits scene nested invocation course) := by
  unfold invoke invokeWaits
  dsimp only
  cases bound : invocation.function.params.bind invocation.args [] with
  | mk vars failure =>
      cases failure with
      | some error => exact .nil rfl
      | none =>
          dsimp only
          cases Invocation.bindInstance scene.code invocation vars course.world with
          | error error => exact .nil rfl
          | ok bound =>
              obtain ⟨vars, world⟩ := bound
              let next : Completion × Variables → Course → Ending Value := fun executed course =>
                ⟨Invocation.result invocation.function executed.1, course⟩
              have same : ∀ executed course, (next executed course).course.yields = course.yields :=
                fun _ _ => rfl
              have counted := (stmts_counted called invocation.function.body.stmts vars
                (lock scene.context (guardOf invocation.function)
                  { course with world })).andThen_same same
              unfold Ending.Counted at counted ⊢
              rw [lock_yields] at counted
              simp only [body, unlock_yields]
              exact counted

end

/-- The evaluation of a call in one go counts the yields of the waits that it executes. -/
theorem run_counted (code : Code) (context : ContextId) (depth : Nat) (invocation : Invocation)
    (course : Course) : (run code context depth invocation course).Counted course
      (runWaits code context depth invocation course) := by
  induction depth generalizing invocation course with
  | zero => exact .nil rfl
  | succ depth ih =>
      let scene : Scene := ⟨code, context, invocation.function.program, run code context depth⟩
      have called : scene.CountsCalls (runWaits code context depth) := ih
      rw [run, runWaits]
      exact invoke_counted called invocation course

theorem hostCall_counted (engine : Engine) (stack : Stack) (entry : EntryCall) :
    (hostCall engine stack entry).2.yields = asked (hostWaits engine stack entry) := by
  unfold hostCall hostWaits
  cases (entryFunction engine.code stack entry).1 with
  | error cause => rfl
  | ok function =>
      have counted := run_counted engine.code stack.context engine.code.maxCallDepth
        ⟨function, entry.receiver.map Receiver.handle, entry.args, none, stack.program⟩
        ⟨engine.world, 0⟩
      exact counted.trans (Nat.zero_add _)

end Direct

/-- Resume so many times under gates that decline nothing. -/
def Driven.patiently (driven : Driven) (count : Nat) : Driven :=
  driven.resumed (List.replicate count .unlimited)

theorem Driven.patiently_succ (driven : Driven) (count : Nat) :
    driven.patiently (count + 1) =
      (driven.engine.resume driven.stack .unlimited).patiently count := rfl

def GuardTable.SparesOthers (table : GuardTable) (context : ContextId) : Prop :=
  ∀ className guard holder, table.guard? className = some guard → guard.holder = some holder →
    holder = context

theorem GuardTable.SparesOthers.not_hindered {context : ContextId} {machine : Machine}
    (spares : machine.world.guards.SparesOthers context) (free : machine.gate = .unlimited) :
    ¬ Following.Hindered context machine := by
  rintro (gated | ⟨className, guard, holder, found, held, other⟩)
  · exact gated free
  · exact other (spares className guard holder found held)

theorem GuardTable.LeftTo.sparesOthers {table : GuardTable} {context : ContextId}
    (left : table.LeftTo context) : table.SparesOthers context := by
  intro className guard holder found held
  have own := (left className).holder
  rw [found, Option.getD_some, held] at own
  rcases own with unheld | same
  · cases unheld
  · exact Option.some.inj same

/-- Nothing but its waits makes a call yield: whenever it has yielded, no guard is in other hands. -/
def Driven.Undisturbed (driven : Driven) (context : ContextId) : Prop :=
  ∀ count, (driven.patiently count).outcome = .ok .suspended →
    (driven.patiently count).engine.world.guards.SparesOthers context

namespace Pending

open Direct (Course Ending)

variable {engine : Engine} {stack : Stack} {entry : EntryCall} {invocation : Invocation}
  {past : Past}

def Leaves (engine : Engine) (stack : Stack) (invocation : Invocation) (yields left : Nat) : Prop :=
  (Remainder.run engine.code stack.context engine.code.maxCallDepth invocation stack.root
    ⟨engine.world, yields⟩).course.yields = yields + left

theorem resumed_once (pending : Pending engine stack entry invocation)
    (fits : past.Fits engine.code) (formed : stack.Formed past)
    (undisturbed : (engine.resume stack .unlimited).Undisturbed stack.context) {yields left : Nat}
    (leaves : Leaves engine stack invocation yields left) :
    (left = 0 ∧ ∃ outcome, outcome ≠ .suspended ∧
      (engine.resume stack .unlimited).outcome = .ok outcome) ∨
    ∃ next kept engine' stack', engine.resume stack .unlimited =
        ⟨.ok .suspended, engine', stack', .unlimited⟩ ∧ left = next + 1 ∧
      Pending engine' stack' { entry with kept } invocation ∧ past.Fits engine'.code ∧
      stack'.Formed past ∧ stack'.context = stack.context ∧
      Leaves engine' stack' invocation (yields + 1) next := by
  obtain ⟨kept, driven⟩ := pending.drive_eq .unlimited
  have follows := Following.run_follows fits.consistent stack.context engine.code.maxCallDepth
    invocation stack.root ⟨engine.world, .unlimited⟩
  have moves := run_moves engine.code stack.context engine.code.maxCallDepth invocation
    stack.root ⟨engine.world, .unlimited⟩
  have later := Engine.drive_formed fits formed .unlimited
  have goesOn : ∀ root after, Invocation.run engine.code stack.context
      engine.code.maxCallDepth invocation stack.root ⟨engine.world, .unlimited⟩ =
        (.suspended root, after) → Pending { engine with world := after.world }
          { stack with entry := some { entry with kept }, root } { entry with kept }
          invocation := fun _ _ stopped => pending.suspended fits.consistent stopped
  have spares := undisturbed 0
  simp only [Driven.patiently, List.replicate_zero, Driven.resumed, List.foldl_nil, Engine.resume,
    driven] at later spares ⊢
  unfold Leaves at leaves ⊢
  generalize Invocation.run _ _ _ _ _ _ = ended at follows moves later goesOn spares ⊢
  obtain ⟨progress, world, gate⟩ := ended
  obtain rfl : gate = .unlimited := moves.unlimited rfl
  cases progress with
  | done value =>
      rw [follows yields] at leaves
      have ends : left = 0 := (Nat.add_eq_left.mp leaves.symm)
      exact Or.inl ⟨ends, .completed value, Outcome.noConfusion, rfl⟩
  | failed error =>
      rw [follows yields] at leaves
      have ends : left = 0 := (Nat.add_eq_left.mp leaves.symm)
      exact Or.inl ⟨ends, .failed error, Outcome.noConfusion, rfl⟩
  | suspended root =>
      have pending := goesOn root ⟨world, .unlimited⟩ rfl
      obtain ⟨count, counted, continues⟩ := follows
      -- Neither a gate nor a guard has hindered the call, so it is a wait that it has yielded for.
      obtain rfl : count = 1 := by
        rcases counted with one | ⟨_, hindered⟩
        · exact one
        · exact absurd hindered (GuardTable.SparesOthers.not_hindered (spares rfl) rfl)
      rw [continues yields] at leaves
      have ahead : yields + 1 ≤ _ := (pending.goes_alike fits later.shape later.shape rfl
        (World.Agrees.refl _ _) (yields + 1)).later
      obtain ⟨next, rfl⟩ : ∃ next, left = next + 1 := by
        rw [leaves] at ahead
        exact Nat.exists_eq_add_one_of_ne_zero (by omega)
      refine Or.inr ⟨next, kept, _, _, rfl, rfl, pending, fits, later, rfl, ?_⟩
      rw [leaves, Nat.add_assoc, Nat.add_comm 1]

/-- A call that is gone on with yields as often as what is left of it counts, and then it is over. -/
theorem yields_as_left (pending : Pending engine stack entry invocation)
    (fits : past.Fits engine.code) (formed : stack.Formed past)
    (undisturbed : (engine.resume stack .unlimited).Undisturbed stack.context) {yields left : Nat}
    (leaves : Leaves engine stack invocation yields left) :
    (∀ count < left, ((engine.resume stack .unlimited).patiently count).outcome =
      .ok .suspended) ∧
    ∃ outcome, outcome ≠ .suspended ∧
      ((engine.resume stack .unlimited).patiently left).outcome = .ok outcome := by
  induction left generalizing engine stack entry yields with
  | zero =>
      rcases pending.resumed_once fits formed undisturbed leaves with
        ⟨_, ends⟩ | ⟨next, _, _, _, _, more, _⟩
      · exact ⟨fun _ early => absurd early (Nat.not_lt_zero _), ends⟩
      · cases more
  | succ left ih =>
      rcases pending.resumed_once fits formed undisturbed leaves with
        ⟨absurdity, _⟩ | ⟨next, kept, engine', stack', stopped, more, pending, fits, formed, same, leaves⟩
      · cases absurdity
      · obtain rfl := Nat.succ.inj more
        rw [stopped] at undisturbed ⊢
        have behind : (engine'.resume stack' .unlimited).Undisturbed stack'.context := by
          intro count suspended
          rw [same]
          exact undisturbed (count + 1) suspended
        obtain ⟨suspends, ends⟩ := ih pending fits formed behind leaves
        refine ⟨fun count before => ?_, ends⟩
        cases count with
        | zero => rfl
        | succ count => exact suspends count (Nat.lt_of_succ_lt_succ before)

end Pending

section

variable {engine : Engine} {stack : Stack} {entry : EntryCall}

theorem start_cases (idle : stack.isActive = false) (first : entry.kept = none)
    (loaded : (engine.code.programs.get? stack.program).isSome = true) (gate : Gate) :
    (∃ cause, (Direct.entryFunction engine.code stack entry).1 = .error cause ∧
      (engine.start stack entry gate).outcome = .ok (.notFound cause)) ∨
    ∃ function, (Direct.entryFunction engine.code stack entry).1 = .ok function ∧
      engine.start stack entry gate = engine.resume (stack.begun entry) gate ∧
      Pending engine (stack.begun entry) entry (entry.invocation function stack.program) := by
  have starts : engine.start stack entry gate = engine.drive (stack.begun entry) gate := by
    simp only [Engine.start, idle, Bool.false_eq_true, if_false]
    rfl
  have chosen : Engine.entryCallee engine.code (stack.begun entry) entry =
      Evaluation.callee engine.code {} none (Direct.entryFunction engine.code stack entry) := by
    rw [Engine.entryCallee, first]
    rfl
  generalize Direct.entryFunction engine.code stack entry = found at chosen ⊢
  obtain ⟨result, kept⟩ := found
  cases result with
  | error cause =>
      refine Or.inl ⟨cause, rfl, ?_⟩
      have there : (engine.code.programs.get? (stack.begun entry).program).isNone = false := by
        simpa [Stack.begun] using loaded
      have active : (stack.begun entry).entry = some entry := rfl
      rw [starts, Engine.drive, active]
      simp only [there, Bool.false_eq_true, if_false, chosen]
      rfl
  | ok function => exact Or.inr ⟨function, rfl, starts, loaded, rfl, ⟨kept, chosen⟩, rfl⟩

theorem start_yields {past : Past} (fits : past.Fits engine.code) (idle : stack.isActive = false)
    (first : entry.kept = none)
    (loaded : (engine.code.programs.get? stack.program).isSome = true)
    (undisturbed : (engine.start stack entry .unlimited).Undisturbed stack.context) :
    (∀ count < Direct.asked (Direct.hostWaits engine stack entry),
      ((engine.start stack entry .unlimited).patiently count).outcome = .ok .suspended) ∧
    ∃ outcome, outcome ≠ .suspended ∧
      ((engine.start stack entry .unlimited).patiently
        (Direct.asked (Direct.hostWaits engine stack entry))).outcome = .ok outcome := by
  rw [← Direct.hostCall_counted]
  unfold Direct.hostCall
  rcases start_cases idle first loaded .unlimited with
    ⟨cause, found, ends⟩ | ⟨function, found, starts, pending⟩
  · rw [found]
    exact ⟨fun _ early => absurd early (Nat.not_lt_zero _), .notFound cause, Outcome.noConfusion, ends⟩
  · rw [found]
    rw [starts] at undisturbed ⊢
    have formed : (stack.begun entry).Formed past := ⟨.fresh, nofun⟩
    refine pending.yields_as_left fits formed undisturbed (?_ : Pending.Leaves _ _ _ 0 _)
    rw [Pending.Leaves, Nat.zero_add]
    exact congrArg (·.course.yields) (congrFun (Agreement.run_fresh ..) _)

end

/-- A call that the host makes on an idle stack yields as often as the waits that it executes ask for,
those of all calls nested in it included, and then it is over as it would have been in one go. -/
theorem yields_as_waits_ask (operations : List Operation) (stack : Stack)
    (idle : stack.isActive = false)
    (loaded : ((Host.after operations).engine.code.programs.get? stack.program).isSome = true)
    (request : Request) (entry : EntryCall)
    (opened : request.opened? (Host.after operations).engine.world.heap = some entry)
    (undisturbed : (request.start (Host.after operations).engine stack .unlimited).Undisturbed
      stack.context) :
    let engine := (Host.after operations).engine
    let call := request.start engine stack .unlimited
    let waits := Direct.hostWaits engine stack entry
    (∀ count < (waits.map Value.asks).sum, (call.patiently count).outcome = .ok .suspended) ∧
    (Direct.hostCall engine stack entry).1 ≠ .suspended ∧
    (call.patiently (waits.map Value.asks).sum).outcome =
      .ok (Direct.hostCall engine stack entry).1 := by
  obtain ⟨known, formed⟩ := Host.after_formed operations
  have knows := formed.knows
  generalize (Host.after operations).engine = engine at loaded opened undisturbed knows ⊢
  have first : entry.kept = none := by
    cases request with
    | function name args =>
        cases opened
        rfl
    | method handle name args =>
        obtain ⟨object, _, rfl⟩ := Option.map_eq_some_iff.mp opened
        rfl
  have starts : request.start engine stack .unlimited = engine.start stack entry .unlimited := by
    rw [Request.start_eq, opened]
  dsimp only
  rw [starts] at undisturbed ⊢
  obtain ⟨suspends, outcome, finished, ends⟩ :=
    start_yields knows.fits idle first loaded undisturbed
  obtain ⟨same, _⟩ := start_resumed knows.consistent idle first finished .unlimited _ ends
  rw [same]
  exact ⟨suspends, finished, ends⟩

theorem Driven.patiently_leftTo {context : ContextId} (count : Nat) {driven : Driven}
    (named : driven.stack.context = context) (left : driven.engine.world.guards.LeftTo context) :
    (driven.patiently count).engine.world.guards.LeftTo context := by
  induction count generalizing driven with
  | zero => exact left
  | succ count ih =>
      rw [patiently_succ]
      refine ih ((Engine.drive_context ..).trans named) ?_
      have effects := Engine.drive_effects driven.engine driven.stack .unlimited
      rw [named] at effects
      exact effects.leftTo left

theorem Request.start_undisturbed {engine : Engine} {stack : Stack} (request : Request) {gate : Gate}
    (left : engine.world.guards.LeftTo stack.context) :
    (request.start engine stack gate).Undisturbed stack.context := by
  have started : ∀ entry, (engine.start stack entry gate).stack.context = stack.context ∧
      (engine.start stack entry gate).engine.world.guards.LeftTo stack.context := by
    intro entry
    unfold Engine.start
    split
    · exact ⟨rfl, left⟩
    · have effects := Engine.drive_effects engine (stack.begun entry) gate
      exact ⟨Engine.drive_context .., Effects.leftTo effects left⟩
  intro count _
  refine GuardTable.LeftTo.sparesOthers (Driven.patiently_leftTo count ?_ ?_)
  · rw [Request.start_eq]
    split
    · exact (started _).1
    · rfl
  · rw [Request.start_eq]
    split
    · exact (started _).2
    · exact left

def waitingGuard : List Operation :=
  [.register { name := "Guard" },
    .compile "guard" "class Guard \x7b
      synchronized int rest(int n) \x7b wait(n); return n; \x7d
      synchronized int watch(int n) \x7b
        wait(n - 3);
        return this.rest(this.rest(n) + 1);
      \x7d
    \x7d",
    .newInstance "Guard"]

theorem yields_as_waits_ask_of_guard :
    let engine := (Host.after waitingGuard).engine
    let request := Request.method ⟨0, 0⟩ "watch" [.holding "" .int (.int 2)]
    let call := request.start engine idleStack .unlimited
    ∃ entry, request.opened? engine.world.heap = some entry ∧
      (Direct.hostWaits engine idleStack entry).map Value.asks = [0, 2, 3] ∧
      (∀ count < 5, (call.patiently count).outcome = .ok .suspended) ∧
      (Direct.hostCall engine idleStack entry).1 ≠ .suspended ∧
      (call.patiently 5).outcome = .ok (Direct.hostCall engine idleStack entry).1 := by
  let request := Request.method ⟨0, 0⟩ "watch" [.holding "" .int (.int 2)]
  obtain ⟨listed, empty, loaded⟩ :
      (request.opened? (Host.after waitingGuard).engine.world.heap).map (fun entry =>
        (Direct.hostWaits (Host.after waitingGuard).engine idleStack entry).map Value.asks) =
          some [0, 2, 3] ∧
      (Host.after waitingGuard).engine.world.guards = { maxWaiters := 5 } ∧
      ((Host.after waitingGuard).engine.code.programs.get? idleStack.program).isSome = true := by
    decide +kernel
  obtain ⟨entry, opened, waits⟩ := Option.map_eq_some_iff.mp listed
  have free : (Host.after waitingGuard).engine.world.guards.LeftTo idleStack.context := by
    rw [empty]
    exact GuardTable.LeftTo.fresh idleStack.context 5
  have yields := yields_as_waits_ask waitingGuard idleStack rfl loaded request entry
    opened (request.start_undisturbed free)
  dsimp only at yields
  rw [waits] at yields
  exact ⟨entry, opened, waits, yields⟩

end ScriptEngine
