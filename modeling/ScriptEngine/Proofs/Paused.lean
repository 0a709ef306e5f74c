import ScriptEngine.Proofs.Bindings
import ScriptEngine.Proofs.Readmission
/-! The frames of a call that yielded. They are one way down through its code, with nothing beside it
that was left over from what is done: at each part of the code stands the frame of what was in
progress there, and the last one waits, is queued for a guard, or has not entered its body yet. Only
the calls on the way have variables. -/

namespace ScriptEngine

def Variable.entry (var : Variable) : String × DataType := (var.name, var.type)

namespace Variables

def entries (vars : Variables) : Locals := vars.map Variable.entry

theorem entries_append (vars more : Variables) :
    entries (vars ++ more) = vars.entries ++ more.entries := List.map_append

theorem entries_update (vars : Variables) (binding : Binding) (value : Value) :
    entries (vars.update binding fun var => var.set value) = vars.entries := by
  have first : ∀ (wanted : Variable → Bool) (vars : Variables),
      entries (updateFirst wanted (fun var => var.set value) vars) = vars.entries := by
    intro wanted vars
    induction vars with
    | nil => rfl
    | cons head rest ih =>
        rw [updateFirst]
        split
        · rfl
        · exact congrArg (head.entry :: ·) ih
  unfold update
  split
  · rfl
  · exact first ..

theorem entries_unbound (vars : Variables) :
    entries (vars.map fun var => var.bind .unbound) = vars.entries := by
  simp [entries, Function.comp_def, Variable.entry, Variable.bind]

end Variables

mutual

theorem Stmt.reached_sublist : ∀ (stmt : Stmt) (frame : Frame),
    (stmt.reached frame).Sublist stmt.locals
  | .block _ stmts, frame => by
      rw [Stmt.reached, Stmt.locals]
      exact Stmt.reachedIn_sublist 0 stmts frame
  | .return .., _ | .wait .., _ | .declare .., _ | .assign .., _ | .expr _, _ => by
      rw [Stmt.reached]
      exact List.nil_sublist _

theorem Stmt.reachedIn_sublist (place : Nat) : ∀ (stmts : List Stmt) (frame : Frame),
    (Stmt.reachedIn place stmts frame).Sublist (Stmt.localsIn stmts)
  | [], _ => by
      rw [Stmt.reachedIn]
      exact List.nil_sublist _
  | first :: rest, frame => by
      rw [Stmt.reachedIn, Stmt.localsIn]
      split
      · exact (List.Sublist.refl _).append (Stmt.reachedIn_sublist (place + 1) rest frame)
      · exact (Stmt.reached_sublist first _).trans (List.sublist_append_left ..)

end

namespace Function

/-- The variables that the object of a method is known by: as one of its class, and as one of the
parent of that. -/
def object (function : Function) (classes : ClassTable) : Locals :=
  match function.owner with
  | none => []
  | some owner =>
      (Reserved.this.name, .object owner) :: match classes.parent? owner with
        | some parent => [(Reserved.super.name, .object parent)]
        | none => []

def entries (function : Function) (classes : ClassTable) : Locals :=
  function.parameters ++ function.object classes ++ Stmt.localsIn function.body.stmts

/-- The variables of a call whose body has declared some locals by now: the parameters in order, the
object, and these locals, no two of one name. -/
structure Lists (function : Function) (classes : ClassTable) (declared : Locals)
    (vars : Variables) : Prop where
  entries : vars.entries = function.parameters ++ function.object classes ++ declared
  distinct : (vars.map Variable.name).Nodup

def Distinct (function : Function) (classes : ClassTable) : Prop :=
  ((function.entries classes).map Prod.fst).Nodup

section

variable {function : Function} {classes later : ClassTable} {declared : Locals} {vars : Variables}

theorem Distinct.lists (distinct : function.Distinct classes)
    (listed : vars.entries = function.parameters ++ function.object classes ++ declared)
    (among : declared.Sublist (Stmt.localsIn function.body.stmts)) :
    function.Lists classes declared vars := by
  refine ⟨listed, ?_⟩
  have names : vars.map Variable.name = vars.entries.map Prod.fst := by
    simp [Variables.entries, Variable.entry, Function.comp_def]
  rw [names, listed]
  exact List.Nodup.sublist (((List.Sublist.refl _).append among).map Prod.fst) distinct

theorem Lists.congr (lists : function.Lists classes declared vars)
    (same : function.object later = function.object classes) :
    function.Lists later declared vars :=
  ⟨same ▸ lists.entries, lists.distinct⟩

theorem Lists.rename (lists : function.Lists classes declared vars) {other : Variables}
    (same : other.entries = vars.entries) : function.Lists classes declared other := by
  have names : other.map Variable.name = vars.map Variable.name := by
    have first := congrArg (List.map Prod.fst) same
    simpa [Variables.entries, Variable.entry, Function.comp_def] using first
  exact ⟨same.trans lists.entries, names ▸ lists.distinct⟩

theorem object_of_within
    (owned : ∀ owner, function.owner = some owner → classes.contains owner = true)
    (within : classes.Within later) : function.object later = function.object classes := by
  unfold object
  cases named : function.owner with
  | none => rfl
  | some owner =>
      obtain ⟨decl, found⟩ := Option.isSome_iff_exists.mp (owned owner named)
      have same : later.parent? owner = classes.parent? owner := by
        rw [ClassTable.parent?, ClassTable.parent?, found, within owner decl found]
      simp only [same]

theorem Coherent.object (coherent : function.Coherent classes) :
    ((function.object classes).map Prod.fst).Nodup ∧
      ∀ name ∈ (function.object classes).map Prod.fst, function.localId? name = none := by
  unfold Function.object
  cases owned : function.owner with
  | none => exact ⟨List.nodup_nil, nofun⟩
  | some owner =>
      have this := coherent.this owner owned
      dsimp only
      cases above : classes.parent? owner with
      | none =>
          refine ⟨List.nodup_singleton _, fun name among => ?_⟩
          obtain rfl := List.mem_singleton.mp among
          exact this
      | some parent =>
          refine ⟨by simp [Reserved.name], fun name among => ?_⟩
          rcases List.mem_cons.mp among with rfl | among
          · exact this
          · obtain rfl := List.mem_singleton.mp among
            exact coherent.super owner parent owned above

theorem Typed.distinct {names : CallScope} (typed : function.Typed names)
    (coherent : function.Coherent classes) : function.Distinct classes := by
  have apart := coherent.object
  have moved : (function.entries classes).Perm (function.object classes ++
      (function.parameters ++ Stmt.localsIn function.body.stmts)) := by
    unfold Function.entries
    rw [← List.append_assoc]
    exact List.perm_append_comm.append_right _
  unfold Distinct
  rw [(moved.map Prod.fst).nodup_iff, List.map_append, List.nodup_append]
  refine ⟨apart.1, typed.distinct_locals coherent, fun name reserved other listed same => ?_⟩
  obtain ⟨entry, among, rfl⟩ := List.mem_map.mp listed
  obtain ⟨place, found⟩ := List.getElem?_of_mem among
  have numbered := typed.placed coherent found
  rw [← same, apart.2 name reserved] at numbered
  cases numbered

end

end Function

/-- The frames that a part of the code yields with. Each has the one child that is on the way: an
expression in the slot behind its temporaries, a block in the slot of its statement, a call in slot
0. A part without an own frame yields with that of the expression, or the block, that it is. -/
inductive Paused (known : List Function) (classes : ClassTable) : Part → Frame → Prop
  | operand {expr operand : Expr} {temps : List Value} {child : Frame} :
      expr.operands[temps.length]? = some operand → Paused known classes (.expr operand) child →
      Paused known classes (.expr expr)
        { state := .eval, temps, children := [(temps.length, child)] }
  | callee {type : DataType} {span : Span} {site : CallSite} {operands : List Expr}
      {temps : List Value} {function : Function} {child : Frame} :
      temps.length = operands.length → Paused known classes (.call function) child →
      Paused known classes (.expr (.call type span site operands))
        { state := .eval, temps, children := [(temps.length, child)] }
  | value {stmt : Stmt} {value : Expr} {frame : Frame} : stmt.value? = some value →
      Paused known classes (.expr value) frame → Paused known classes (.stmt stmt) frame
  | waiting {span : Span} {count : Expr} {remaining : Nat} :
      Paused known classes (.stmt (.wait span count)) { state := .wait remaining }
  | nested {span : Span} {stmts : List Stmt} {frame : Frame} :
      Paused known classes (.block stmts) frame →
      Paused known classes (.stmt (.block span stmts)) frame
  | block {stmts : List Stmt} {next : Nat} {stmt : Stmt} {child : Frame} :
      stmts[next]? = some stmt → Paused known classes (.stmt stmt) child →
      Paused known classes (.block stmts) { state := .block next, children := [(next, child)] }
  | queued {function : Function} {vars : Variables} : function ∈ known →
      function.Lists classes [] vars → function.signature.callKind.isSynchronized = true →
      Paused known classes (.call function)
        { state := .call { function.newCall with step := .acquireGuard }, vars }
  | declined {function : Function} {vars : Variables} : function ∈ known →
      function.Lists classes [] vars → Paused known classes (.call function)
        { state := .call { function.newCall with step := .runBody }, vars }
  | running {function : Function} {vars : Variables} {body : Frame} : function ∈ known →
      function.Lists classes (Stmt.reachedIn 0 function.body.stmts body) vars →
      Paused known classes (.block function.body.stmts) body → Paused known classes (.call function)
        { state := .call { function.newCall with step := .runBody }, vars,
          children := [(0, body)] }

def Rested (known : List Function) (classes : ClassTable) (part : Part) (frame : Frame) : Prop :=
  frame = {} ∨ Paused known classes part frame

section

variable {known more : List Function} {classes later : ClassTable} {part : Part} {frame : Frame}

theorem Paused.mono (paused : Paused known classes part frame)
    (grows : ∀ function ∈ known, function ∈ more ∧
      function.object later = function.object classes) : Paused more later part frame := by
  induction paused with
  | operand placed _ ih => exact .operand placed ih
  | callee complete _ ih => exact .callee complete ih
  | value computes _ ih => exact .value computes ih
  | waiting => exact .waiting
  | nested _ ih => exact .nested ih
  | block placed _ ih => exact .block placed ih
  | queued among lists locks =>
      exact .queued (grows _ among).1 (lists.congr (grows _ among).2) locks
  | declined among lists => exact .declined (grows _ among).1 (lists.congr (grows _ among).2)
  | running among lists _ ih => exact .running (grows _ among).1 (lists.congr (grows _ among).2) ih

theorem Paused.call_held {function : Function} (paused : Paused known classes (.call function) frame) :
    function ∈ known ∧ ∃ step, frame.state = .call { function.newCall with step } := by
  cases paused with
  | queued among => exact ⟨among, .acquireGuard, rfl⟩
  | declined among => exact ⟨among, .runBody, rfl⟩
  | running among => exact ⟨among, .runBody, rfl⟩

theorem Rested.value {stmt : Stmt} {expr : Expr} (rested : Rested known classes (.stmt stmt) frame)
    (computes : stmt.value? = some expr) (starts : (∀ span count, stmt ≠ .wait span count) ∨
      ∀ remaining, frame.state ≠ .wait remaining) : Rested known classes (.expr expr) frame := by
  rcases rested with rfl | paused
  · exact Or.inl rfl
  · cases paused with
    | value value paused =>
        rw [computes] at value
        cases value
        exact Or.inr paused
    | waiting =>
        rcases starts with other | starts
        · exact absurd rfl (other _ _)
        · exact absurd rfl (starts _)
    | nested => cases computes

theorem Rested.block {span : Span} {stmts : List Stmt}
    (rested : Rested known classes (.stmt (.block span stmts)) frame) :
    Rested known classes (.block stmts) frame := by
  rcases rested with rfl | paused
  · exact Or.inl rfl
  · cases paused with
    | value computes => cases computes
    | nested paused => exact Or.inr paused

theorem Rested.bare {span : Span} {count : Expr}
    (rested : Rested known classes (.stmt (.wait span count)) frame) :
    frame.clearProgress = { state := frame.state } ∧
      ∀ remaining, frame.state = .wait remaining → frame = { state := frame.state } := by
  rcases rested with rfl | paused
  · exact ⟨rfl, fun _ _ => rfl⟩
  · cases paused with
    | value computes paused =>
        cases paused <;> exact ⟨rfl, fun _ waiting => nomatch waiting⟩
    | waiting => exact ⟨rfl, fun _ _ => rfl⟩

inductive Operating (known : List Function) (classes : ClassTable) (expr : Expr) (slot : Nat) :
    Frame → Prop
  | reached {temps : List Value} : temps.length = slot →
      Operating known classes expr slot { state := .eval, temps }
  | ahead {frame : Frame} : Paused known classes (.expr expr) frame → slot ≤ frame.temps.length →
      Operating known classes expr slot frame

theorem Rested.operating {expr : Expr} (rested : Rested known classes (.expr expr) frame) :
    Operating known classes expr 0 frame.startEval := by
  rcases rested with rfl | paused
  · exact .reached rfl
  · have evaluating : frame.state = .eval := by
      cases paused <;> rfl
    rw [Frame.startEval_of_eval evaluating]
    exact .ahead paused (Nat.zero_le _)

theorem Operating.due {expr operand : Expr} {slot : Nat}
    (operating : Operating known classes expr slot frame)
    (placed : expr.operands[slot]? = some operand) (due : ¬ slot < frame.temps.length) :
    frame.state = .eval ∧ frame.vars = [] ∧ frame.temps.length = slot ∧ frame.Single slot ∧
      Rested known classes (.expr operand) (frame.child slot) := by
  cases operating with
  | reached counted =>
      exact ⟨rfl, rfl, counted, Frame.single_of_nil rfl, Or.inl (Frame.child_of_nil rfl)⟩
  | ahead paused bound =>
      have counted : frame.temps.length = slot := Nat.le_antisymm (Nat.le_of_not_lt due) bound
      cases paused with
      | operand found paused =>
          rw [← counted] at placed ⊢
          rw [found] at placed
          cases placed
          refine ⟨rfl, rfl, rfl, Frame.single_of_child rfl, Or.inr ?_⟩
          rw [Frame.child_of_child rfl]
          exact paused
      | callee complete =>
          rw [← counted] at placed
          have outside := List.getElem?_eq_none_iff.mpr (Nat.le_of_eq complete.symm)
          rw [Expr.operands, outside] at placed
          cases placed

theorem Operating.calling {type : DataType} {span : Span} {site : CallSite} {operands : List Expr}
    (operating : Operating known classes (.call type span site operands) operands.length frame) :
    frame.state = .eval ∧ frame.vars = [] ∧ frame.temps.length = operands.length ∧
      frame.Single operands.length ∧ (frame.child operands.length = {} ∨
        ∃ function, Paused known classes (.call function) (frame.child operands.length)) := by
  cases operating with
  | reached counted =>
      exact ⟨rfl, rfl, counted, Frame.single_of_nil rfl, Or.inl (Frame.child_of_nil rfl)⟩
  | ahead paused bound =>
      cases paused with
      | operand found =>
          have inside := (List.getElem?_eq_some_iff.mp found).1
          exact absurd inside (Nat.not_lt.mpr bound)
      | callee complete paused =>
          rw [← complete]
          refine ⟨rfl, rfl, rfl, Frame.single_of_child rfl, Or.inr ?_⟩
          rw [Frame.child_of_child rfl]
          exact ⟨_, paused⟩

inductive Proceeding (known : List Function) (classes : ClassTable) (stmts : List Stmt)
    (place : Nat) : Frame → Prop
  | reached : Proceeding known classes stmts place { state := .block place }
  | ahead {next : Nat} {stmt : Stmt} {child : Frame} : place ≤ next → stmts[next]? = some stmt →
      Paused known classes (.stmt stmt) child →
      Proceeding known classes stmts place { state := .block next, children := [(next, child)] }

theorem Rested.proceeding {stmts : List Stmt} (rested : Rested known classes (.block stmts) frame) :
    Proceeding known classes stmts 0 { frame with state := .block frame.nextStatement } ∧
      Stmt.reachedIn 0 stmts { frame with state := .block frame.nextStatement } =
        Stmt.reachedIn 0 stmts frame := by
  rcases rested with rfl | paused
  · exact ⟨.reached, by rw [Stmt.reachedIn_fresh 0 stmts rfl rfl,
      Stmt.reachedIn_fresh 0 stmts rfl rfl]⟩
  · cases paused with
    | block found paused => exact ⟨.ahead (Nat.zero_le _) found paused, rfl⟩

theorem Proceeding.due {before rest : List Stmt} {stmt : Stmt}
    (proceeding : Proceeding known classes (before ++ stmt :: rest) before.length frame)
    (due : ¬ before.length < frame.nextStatement) :
    frame.state = .block before.length ∧ frame.vars = [] ∧ frame.temps = [] ∧
      frame.Single before.length ∧ Rested known classes (.stmt stmt) (frame.child before.length) := by
  have placed : (before ++ stmt :: rest)[before.length]? = some stmt := by simp
  cases proceeding with
  | reached => exact ⟨rfl, rfl, rfl, Frame.single_of_nil rfl, Or.inl (Frame.child_of_nil rfl)⟩
  | ahead bound found paused =>
      obtain rfl := Nat.le_antisymm bound (Nat.le_of_not_lt due)
      rw [found] at placed
      cases placed
      refine ⟨rfl, rfl, rfl, Frame.single_of_child rfl, Or.inr ?_⟩
      rw [Frame.child_of_child rfl]
      exact paused

theorem Proceeding.ended {stmts : List Stmt} {place : Nat}
    (proceeding : Proceeding known classes stmts place frame) (whole : stmts.length ≤ place) :
    frame = { state := .block place } := by
  cases proceeding with
  | reached => rfl
  | ahead bound found =>
      have inside := (List.getElem?_eq_some_iff.mp found).1
      exact absurd inside (Nat.not_lt.mpr (Nat.le_trans whole bound))

theorem Proceeding.passed {stmts : List Stmt} {place : Nat}
    (proceeding : Proceeding known classes stmts place frame)
    (passed : place < frame.nextStatement) :
    Proceeding known classes stmts (place + 1) frame := by
  cases proceeding with
  | reached => exact absurd passed (Nat.lt_irrefl _)
  | ahead _ found paused => exact .ahead passed found paused

end

end ScriptEngine
