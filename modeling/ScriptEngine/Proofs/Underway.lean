import ScriptEngine.Proofs.Discipline
/-! Suspended calls that keep a discipline. Each frame of one has the variables of the locals that its
body has declared by then, and temporaries that are values of the operands before the one in
progress. -/

namespace ScriptEngine

theorem Stmt.localsIn_append (before rest : List Stmt) :
    Stmt.localsIn (before ++ rest) = Stmt.localsIn before ++ Stmt.localsIn rest := by
  induction before with
  | nil => rfl
  | cons first before ih => simp [Stmt.localsIn, ih]

mutual

def Stmt.reached : Stmt → Frame → Locals
  | .block _ stmts, frame => Stmt.reachedIn 0 stmts frame
  | .return .., _ | .wait .., _ | .declare .., _ | .assign .., _ | .expr _, _ => []

def Stmt.reachedIn (place : Nat) : List Stmt → Frame → Locals
  | [], _ => []
  | first :: rest, frame =>
      if place < frame.nextStatement then first.locals ++ Stmt.reachedIn (place + 1) rest frame
      else first.reached (frame.child place)

end

mutual

theorem Stmt.reached_fresh : ∀ stmt : Stmt, stmt.reached {} = []
  | .block _ stmts => by
      rw [Stmt.reached]
      exact Stmt.reachedIn_fresh 0 stmts rfl rfl
  | .return .. | .wait .. | .declare .. | .assign .. | .expr _ => by
      rw [Stmt.reached]

theorem Stmt.reachedIn_fresh (place : Nat) : ∀ (stmts : List Stmt) {frame : Frame},
    frame.nextStatement = place → frame.children = [] → Stmt.reachedIn place stmts frame = []
  | [], _, _, _ => by
      rw [Stmt.reachedIn]
  | first :: rest, frame, next, leaf => by
      rw [Stmt.reachedIn, if_neg (by rw [next]; exact Nat.lt_irrefl _), Frame.child_of_nil leaf]
      exact Stmt.reached_fresh first

end

theorem Stmt.reached_of_value {stmt : Stmt} {value : Expr} (computes : stmt.value? = some value)
    (frame : Frame) : stmt.reached frame = [] := by
  cases stmt with
  | block => cases computes
  | «return» | wait | declare | assign | expr => rw [Stmt.reached]

theorem Stmt.reachedIn_append {before rest : List Stmt} {frame : Frame} : ∀ {place : Nat},
    place + before.length ≤ frame.nextStatement →
      Stmt.reachedIn place (before ++ rest) frame =
        Stmt.localsIn before ++ Stmt.reachedIn (place + before.length) rest frame := by
  induction before with
  | nil =>
      intro place _
      rw [Stmt.localsIn]
      rfl
  | cons first before ih =>
      intro place passed
      rw [List.length_cons] at passed
      have here : place < frame.nextStatement := by omega
      rw [List.cons_append, Stmt.reachedIn, if_pos here, ih (by omega), Stmt.localsIn,
        List.append_assoc, List.length_cons, Nat.add_assoc, Nat.add_comm 1]

def Part.locals : Part → Locals
  | .stmt single => single.locals
  | .block stmts => Stmt.localsIn stmts
  | .expr _ | .call _ => []

def Part.reached : Part → Frame → Locals
  | .stmt single, frame => single.reached frame
  | .block stmts, frame => Stmt.reachedIn 0 stmts frame
  | .expr _, _ | .call _, _ => []

def Discipline.Gives (disc : Discipline) (realm : Realm) (function : Function) (type : DataType) :
    Prop :=
  ∀ after value, realm.classes.Grows after.classes → ClassTable.Founded after.classes.classes →
    disc.fits after function.returns value → disc.fits after type value

theorem Discipline.Gives.later {disc : Discipline} {realm further : Realm} {function : Function}
    {type : DataType} (gives : disc.Gives realm function type) (leads : realm.Leads further) :
    disc.Gives further function type :=
  fun after value grows => gives after value (leads.classes.trans grows)

inductive Underway (disc : Discipline) (past : Past) (realm : Realm) : Part → Frame → Prop
  | operand {expr operand : Expr} {temps : List Value} {child : Frame} :
      expr.operands[temps.length]? = some operand → disc.Computed realm expr.operands temps →
      Underway disc past realm (.expr operand) child → Underway disc past realm (.expr expr)
        { state := .eval, temps, children := [(temps.length, child)] }
  | callee {type : DataType} {span : Span} {site : CallSite} {operands : List Expr}
      {temps : List Value} {function : Function} {child : Frame} :
      temps.length = operands.length → disc.Computed realm operands temps →
      disc.Gives realm function type → Underway disc past realm (.call function) child →
      Underway disc past realm (.expr (.call type span site operands))
        { state := .eval, temps, children := [(temps.length, child)] }
  | lost {type : DataType} {span : Span} {site : CallSite} {operands : List Expr}
      {temps : List Value} {child : Frame} :
      temps.length = operands.length → disc.Computed realm operands temps → child.Lost past →
      Underway disc past realm (.expr (.call type span site operands))
        { state := .eval, temps, children := [(temps.length, child)] }
  | value {stmt : Stmt} {value : Expr} {frame : Frame} : stmt.value? = some value →
      Underway disc past realm (.expr value) frame → Underway disc past realm (.stmt stmt) frame
  | waiting {span : Span} {count : Expr} {remaining : Nat} :
      Underway disc past realm (.stmt (.wait span count)) { state := .wait remaining }
  | nested {span : Span} {stmts : List Stmt} {frame : Frame} :
      Underway disc past realm (.block stmts) frame →
      Underway disc past realm (.stmt (.block span stmts)) frame
  | block {stmts : List Stmt} {next : Nat} {stmt : Stmt} {child : Frame} :
      stmts[next]? = some stmt → Underway disc past realm (.stmt stmt) child →
      Underway disc past realm (.block stmts)
        { state := .block next, children := [(next, child)] }
  | queued {function : Function} {vars : Variables} : function ∈ past.known →
      disc.Suits realm function function.parameters vars →
      function.signature.callKind.isSynchronized = true →
      Underway disc past realm (.call function)
        { state := .call { function.newCall with step := .acquireGuard }, vars }
  | declined {function : Function} {vars : Variables} : function ∈ past.known →
      disc.Suits realm function function.parameters vars →
      Underway disc past realm (.call function)
        { state := .call { function.newCall with step := .runBody }, vars }
  | running {function : Function} {vars : Variables} {body : Frame} : function ∈ past.known →
      disc.Suits realm function
        (function.parameters ++ Stmt.reachedIn 0 function.body.stmts body) vars →
      Underway disc past realm (.block function.body.stmts) body →
      Underway disc past realm (.call function)
        { state := .call { function.newCall with step := .runBody }, vars,
          children := [(0, body)] }

def Begun (disc : Discipline) (past : Past) (realm : Realm) (part : Part) (frame : Frame) : Prop :=
  frame = {} ∨ Underway disc past realm part frame

section

variable {disc : Discipline} {past more : Past} {realm further : Realm} {part : Part}
  {frame : Frame}

theorem Underway.mono (underway : Underway disc past realm part frame) (lawful : disc.Lawful)
    (grows : past.Within more) (leads : realm.Leads further) :
    Underway disc more further part frame := by
  induction underway with
  | operand place computed _ ih => exact .operand place (computed.later lawful leads) ih
  | callee complete computed gives _ ih =>
      exact .callee complete (computed.later lawful leads) (gives.later leads) ih
  | lost complete computed lost =>
      exact .lost complete (computed.later lawful leads) (lost.mono grows)
  | value computes _ ih => exact .value computes ih
  | waiting => exact .waiting
  | nested _ ih => exact .nested ih
  | block place _ ih => exact .block place ih
  | queued among suits locks =>
      exact .queued (grows.known _ among) (suits.later lawful leads) locks
  | declined among suits => exact .declined (grows.known _ among) (suits.later lawful leads)
  | running among suits _ ih =>
      exact .running (grows.known _ among) (suits.later lawful leads) ih

theorem Underway.call_held {function : Function}
    (underway : Underway disc past realm (.call function) frame) :
    function ∈ past.known ∧ ∃ step, frame.state = .call { function.newCall with step } := by
  cases underway with
  | queued among => exact ⟨among, .acquireGuard, rfl⟩
  | declined among => exact ⟨among, .runBody, rfl⟩
  | running among => exact ⟨among, .runBody, rfl⟩

inductive Reckoning (disc : Discipline) (past : Past) (realm : Realm) (expr : Expr) (slot : Nat) :
    Frame → Prop
  | reached {temps : List Value} : temps.length = slot →
      disc.Computed realm expr.operands temps →
      Reckoning disc past realm expr slot { state := .eval, temps }
  | ahead {frame : Frame} : Underway disc past realm (.expr expr) frame →
      slot ≤ frame.temps.length → Reckoning disc past realm expr slot frame

theorem Begun.reckoning {expr : Expr} (begun : Begun disc past realm (.expr expr) frame) :
    Reckoning disc past realm expr 0 frame.startEval := by
  rcases begun with rfl | underway
  · exact .reached rfl (.nil _)
  · have evaluating : frame.state = .eval := by
      cases underway <;> rfl
    rw [Frame.startEval_of_eval evaluating]
    exact .ahead underway (Nat.zero_le _)

theorem Reckoning.due {expr operand : Expr} {slot : Nat}
    (reckoning : Reckoning disc past realm expr slot frame)
    (placed : expr.operands[slot]? = some operand) (due : ¬ slot < frame.temps.length) :
    frame.state = .eval ∧ frame.vars = [] ∧ frame.temps.length = slot ∧ frame.Single slot ∧
      disc.Computed realm expr.operands frame.temps ∧
        Begun disc past realm (.expr operand) (frame.child slot) := by
  cases reckoning with
  | reached counted computed =>
      exact ⟨rfl, rfl, counted, Frame.single_of_nil rfl, computed,
        Or.inl (Frame.child_of_nil rfl)⟩
  | ahead underway bound =>
      have counted : frame.temps.length = slot := Nat.le_antisymm (Nat.le_of_not_lt due) bound
      cases underway with
      | operand found computed underway =>
          rw [← counted] at placed ⊢
          rw [found] at placed
          cases placed
          refine ⟨rfl, rfl, rfl, Frame.single_of_child rfl, computed, Or.inr ?_⟩
          rw [Frame.child_of_child rfl]
          exact underway
      | callee complete | lost complete =>
          rw [← counted] at placed
          have outside := List.getElem?_eq_none_iff.mpr (Nat.le_of_eq complete.symm)
          rw [Expr.operands, outside] at placed
          cases placed

theorem Reckoning.computed {expr : Expr} {slot : Nat}
    (reckoning : Reckoning disc past realm expr slot frame) (whole : slot = expr.operands.length) :
    frame.temps.length = expr.operands.length ∧
      disc.Computed realm expr.operands frame.temps := by
  cases reckoning with
  | reached counted computed => exact ⟨counted.trans whole, computed⟩
  | ahead underway bound =>
      cases underway with
      | operand found computed =>
          have inside := (List.getElem?_eq_some_iff.mp found).1
          exact absurd inside (Nat.not_lt.mpr (whole ▸ bound))
      | callee complete computed | lost complete computed => exact ⟨complete, computed⟩

inductive Calling (disc : Discipline) (past : Past) (realm : Realm) (type : DataType) :
    Frame → Prop
  | fresh : Calling disc past realm type {}
  | going {function : Function} {frame : Frame} : disc.Gives realm function type →
      Underway disc past realm (.call function) frame → Calling disc past realm type frame
  | lost {frame : Frame} : frame.Lost past → Calling disc past realm type frame

theorem Reckoning.calling {type : DataType} {span : Span} {site : CallSite}
    {operands : List Expr}
    (reckoning : Reckoning disc past realm (.call type span site operands) operands.length frame) :
    frame.state = .eval ∧ frame.vars = [] ∧ frame.Single operands.length ∧
      Calling disc past realm type (frame.child operands.length) := by
  cases reckoning with
  | reached counted =>
      refine ⟨rfl, rfl, Frame.single_of_nil rfl, ?_⟩
      rw [Frame.child_of_nil rfl]
      exact .fresh
  | ahead underway bound =>
      cases underway with
      | operand found =>
          have inside := (List.getElem?_eq_some_iff.mp found).1
          exact absurd inside (Nat.not_lt.mpr bound)
      | callee complete _ gives underway =>
          rw [← complete]
          refine ⟨rfl, rfl, Frame.single_of_child rfl, ?_⟩
          rw [Frame.child_of_child rfl]
          exact .going gives underway
      | lost complete _ lost =>
          rw [← complete]
          refine ⟨rfl, rfl, Frame.single_of_child rfl, ?_⟩
          rw [Frame.child_of_child rfl]
          exact .lost lost

theorem Begun.value {stmt : Stmt} {expr : Expr} (begun : Begun disc past realm (.stmt stmt) frame)
    (computes : stmt.value? = some expr) (starts : (∀ span count, stmt ≠ .wait span count) ∨
      ∀ remaining, frame.state ≠ .wait remaining) : Begun disc past realm (.expr expr) frame := by
  rcases begun with rfl | underway
  · exact Or.inl rfl
  · cases underway with
    | value value underway =>
        rw [computes] at value
        cases value
        exact Or.inr underway
    | waiting =>
        rcases starts with other | starts
        · exact absurd rfl (other _ _)
        · exact absurd rfl (starts _)
    | nested => cases computes

theorem Begun.block {span : Span} {stmts : List Stmt}
    (begun : Begun disc past realm (.stmt (.block span stmts)) frame) :
    Begun disc past realm (.block stmts) frame := by
  rcases begun with rfl | underway
  · exact Or.inl rfl
  · cases underway with
    | value computes => cases computes
    | nested underway => exact Or.inr underway

theorem Begun.bare {span : Span} {count : Expr} (begun : Begun disc past realm
    (.stmt (.wait span count)) frame) : frame.clearProgress = { state := frame.state } ∧
      ∀ remaining, frame.state = .wait remaining → frame = { state := frame.state } := by
  rcases begun with rfl | underway
  · exact ⟨rfl, fun _ _ => rfl⟩
  · cases underway with
    | value computes underway =>
        cases underway <;> exact ⟨rfl, fun _ waiting => nomatch waiting⟩
    | waiting => exact ⟨rfl, fun _ _ => rfl⟩

inductive Stepping (disc : Discipline) (past : Past) (realm : Realm) (stmts : List Stmt)
    (place : Nat) : Frame → Prop
  | reached : Stepping disc past realm stmts place { state := .block place }
  | ahead {next : Nat} {stmt : Stmt} {child : Frame} : place ≤ next → stmts[next]? = some stmt →
      Underway disc past realm (.stmt stmt) child →
      Stepping disc past realm stmts place { state := .block next, children := [(next, child)] }

theorem Begun.stepping {stmts : List Stmt} (begun : Begun disc past realm (.block stmts) frame) :
    Stepping disc past realm stmts 0 { frame with state := .block frame.nextStatement } ∧
      Stmt.reachedIn 0 stmts { frame with state := .block frame.nextStatement } =
        Stmt.reachedIn 0 stmts frame := by
  rcases begun with rfl | underway
  · exact ⟨.reached, by rw [Stmt.reachedIn_fresh 0 stmts rfl rfl,
      Stmt.reachedIn_fresh 0 stmts rfl rfl]⟩
  · cases underway with
    | block found underway => exact ⟨.ahead (Nat.zero_le _) found underway, rfl⟩

theorem Stepping.due {before rest : List Stmt} {stmt : Stmt}
    (stepping : Stepping disc past realm (before ++ stmt :: rest) before.length frame)
    (due : ¬ before.length < frame.nextStatement) :
    frame.state = .block before.length ∧ frame.vars = [] ∧ frame.temps = [] ∧
      frame.Single before.length ∧
        Begun disc past realm (.stmt stmt) (frame.child before.length) := by
  have placed : (before ++ stmt :: rest)[before.length]? = some stmt := by simp
  cases stepping with
  | reached => exact ⟨rfl, rfl, rfl, Frame.single_of_nil rfl, Or.inl (Frame.child_of_nil rfl)⟩
  | ahead bound found underway =>
      obtain rfl := Nat.le_antisymm bound (Nat.le_of_not_lt due)
      rw [found] at placed
      cases placed
      refine ⟨rfl, rfl, rfl, Frame.single_of_child rfl, Or.inr ?_⟩
      rw [Frame.child_of_child rfl]
      exact underway

theorem Stepping.ended {stmts : List Stmt} {place : Nat}
    (stepping : Stepping disc past realm stmts place frame) (whole : stmts.length ≤ place) :
    frame = { state := .block place } := by
  cases stepping with
  | reached => rfl
  | ahead bound found =>
      have inside := (List.getElem?_eq_some_iff.mp found).1
      exact absurd inside (Nat.not_lt.mpr (Nat.le_trans whole bound))

theorem Stepping.passed {stmts : List Stmt} {place : Nat}
    (stepping : Stepping disc past realm stmts place frame) (passed : place < frame.nextStatement) :
    Stepping disc past realm stmts (place + 1) frame := by
  cases stepping with
  | reached => exact absurd passed (Nat.lt_irrefl _)
  | ahead _ found underway => exact .ahead passed found underway

theorem reachedIn_at {before rest : List Stmt} {stmt : Stmt}
    (next : frame.nextStatement = before.length) :
    Stmt.reachedIn 0 (before ++ stmt :: rest) frame =
      Stmt.localsIn before ++ stmt.reached (frame.child before.length) := by
  rw [Stmt.reachedIn_append (by omega), Stmt.reachedIn, if_neg (by omega), Nat.zero_add]

theorem reachedIn_next (before rest : List Stmt) (stmt : Stmt) :
    Stmt.reachedIn 0 (before ++ stmt :: rest) { state := .block (before.length + 1) } =
      Stmt.localsIn before ++ stmt.locals := by
  have further : before ++ stmt :: rest = (before ++ [stmt]) ++ rest := by simp
  rw [further, Stmt.reachedIn_append (by simp [Frame.nextStatement]),
    Stmt.reachedIn_fresh _ rest (by simp [Frame.nextStatement]) rfl, List.append_nil,
    Stmt.localsIn_append, Stmt.localsIn, Stmt.localsIn, List.append_nil]

end

end ScriptEngine
