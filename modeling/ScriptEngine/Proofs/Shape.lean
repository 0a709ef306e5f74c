import ScriptEngine.Proofs.Names
/-! The frame trees of suspended calls. A call that yielded has one way down: each frame of it has
at most the child that was in progress, in the slot that the code it belongs to gives it. -/

namespace ScriptEngine

def Expr.operands : Expr → List Expr
  | .literal .. | .var .. => []
  | .negate _ _ inner => [inner]
  | .binary _ _ _ left right => [left, right]
  | .call _ _ _ operands => operands

mutual

def Expr.size : Expr → Nat
  | .literal .. | .var .. => 1
  | .negate _ _ inner => inner.size + 1
  | .binary _ _ _ left right => left.size + right.size + 1
  | .call _ _ _ operands => Expr.sizes operands + 1

def Expr.sizes : List Expr → Nat
  | [] => 0
  | first :: rest => first.size + Expr.sizes rest

end

mutual

def Stmt.size : Stmt → Nat
  | .block _ stmts => Stmt.sizes stmts + 2
  | .return _ none | .declare _ _ _ _ none => 1
  | .return _ (some value) | .wait _ value | .declare _ _ _ _ (some value) | .assign _ _ value
  | .expr value => value.size + 1

def Stmt.sizes : List Stmt → Nat
  | [] => 0
  | first :: rest => first.size + Stmt.sizes rest

end

theorem Expr.size_operand {expr operand : Expr} (among : operand ∈ expr.operands) :
    operand.size < expr.size := by
  have each : ∀ exprs : List Expr, operand ∈ exprs → operand.size ≤ Expr.sizes exprs := by
    intro exprs
    induction exprs with
    | nil => exact nofun
    | cons first rest ih =>
        intro among
        rw [Expr.sizes]
        rcases List.mem_cons.mp among with rfl | later
        · exact Nat.le_add_right ..
        · exact Nat.le_trans (ih later) (Nat.le_add_left ..)
  have among := each _ among
  cases expr with
  | literal | var => exact absurd among (by simp_all [Expr.operands])
  | negate | binary =>
      simp only [Expr.operands, Expr.sizes, Expr.size] at among ⊢
      omega
  | call => exact Nat.lt_succ_of_le among

theorem Stmt.size_statement {stmt : Stmt} {stmts : List Stmt} (among : stmt ∈ stmts) :
    stmt.size < Stmt.sizes stmts + 1 := by
  induction stmts with
  | nil => cases among
  | cons first rest ih =>
      rw [Stmt.sizes]
      rcases List.mem_cons.mp among with rfl | later
      · omega
      · have := ih later
        omega

namespace Evaluation

def applied (activation : Activation) (vars : Variables) (expr : Expr) (frame : Frame)
    (machine : Machine) : Progress Value × Machine :=
  match expr with
  | .literal _ _ value => (.done value, machine)
  | .var _ span target =>
      (.ofExcept (readVariable machine.world.heap vars target span), machine)
  | .negate type span _ =>
      (.ofExcept (negate (frame.temps.getLast?.getD .void) type span), machine)
  | .binary type span operator left right =>
      (.ofExcept (operate operator left.type right.type type frame.temps span), machine)
  | .call _ _ site operands =>
      callSite activation site (operands.map Expr.type) frame machine

theorem evalExpr_eq (activation : Activation) (vars : Variables) (expr : Expr) (frame : Frame)
    (machine : Machine) : evalExpr activation vars expr frame machine =
      match evalOperands activation vars 0 expr.operands frame.startEval machine with
      | (.done frame, machine) => applied activation vars expr frame machine
      | (.suspended frame, machine) => (.suspended frame, machine)
      | (.failed error, machine) => (.failed error, machine) := by
  cases expr with
  | literal | var => rfl
  | negate type span inner =>
      simp only [evalExpr, Expr.operands, evalOperands]
      generalize operand 0 _ _ _ = computed
      obtain ⟨progress, machine⟩ := computed
      cases progress <;> rfl
  | binary type span operator left right =>
      simp only [evalExpr, Expr.operands, evalOperands]
      generalize operand 0 _ _ _ = computed
      obtain ⟨progress, machine⟩ := computed
      cases progress with
      | done frame =>
          dsimp only
          generalize operand 1 _ _ _ = computed
          obtain ⟨progress, machine⟩ := computed
          cases progress <;> rfl
      | suspended | failed => rfl
  | call type span site operands =>
      simp only [evalExpr, Expr.operands]
      generalize evalOperands _ _ _ _ _ _ = computed
      obtain ⟨progress, machine⟩ := computed
      cases progress <;> rfl

end Evaluation

def Stmt.value? : Stmt → Option Expr
  | .return _ value => value
  | .wait _ count => some count
  | .declare _ _ _ _ init => init
  | .assign _ _ value => some value
  | .expr value => some value
  | .block _ _ => none

inductive Part where
  | expr (expr : Expr)
  | stmt (stmt : Stmt)
  | block (stmts : List Stmt)
  | call (function : Function)

structure Past where
  known : List Function
  gone : ProgramId → FunctionId → Prop

structure Past.Within (past more : Past) : Prop where
  known : ∀ function ∈ past.known, function ∈ more.known
  gone : ∀ program function, past.gone program function → more.gone program function

def Frame.Lost (past : Past) (frame : Frame) : Prop :=
  ∃ call, frame.state = .call call ∧ past.gone call.program call.function

theorem Frame.Lost.mono {past more : Past} {frame : Frame} (lost : frame.Lost past)
    (grows : past.Within more) : frame.Lost more := by
  obtain ⟨call, held, gone⟩ := lost
  exact ⟨call, held, grows.gone _ _ gone⟩

/-- A method that is called at a site with a receiver was declared in a class block, and the receiver
is an object. -/
def CallSite.Enters (site : CallSite) (function : Function) (temps : List Value) : Prop :=
  site.hasReceiver = true → function.signature.classBlock.isSome = true ∧
    ∃ handle, temps.head?.bind Value.asObject? = some handle

inductive InProgress (past : Past) : Part → Frame → Prop
  | operand {expr operand : Expr} {temps : List Value} {child : Frame} :
      expr.operands[temps.length]? = some operand → InProgress past (.expr operand) child →
      InProgress past (.expr expr)
        { state := .eval, temps, children := [(temps.length, child)] }
  | callee {type : DataType} {span : Span} {site : CallSite} {operands : List Expr}
      {temps : List Value} {function : Function} {child : Frame} :
      temps.length = operands.length → site.Enters function temps →
      InProgress past (.call function) child →
      InProgress past (.expr (.call type span site operands))
        { state := .eval, temps, children := [(temps.length, child)] }
  | lost {type : DataType} {span : Span} {site : CallSite} {operands : List Expr}
      {temps : List Value} {child : Frame} :
      temps.length = operands.length → child.Lost past →
      InProgress past (.expr (.call type span site operands))
        { state := .eval, temps, children := [(temps.length, child)] }
  | value {stmt : Stmt} {value : Expr} {frame : Frame} : stmt.value? = some value →
      InProgress past (.expr value) frame → InProgress past (.stmt stmt) frame
  | waiting {span : Span} {count : Expr} {remaining : Nat} :
      InProgress past (.stmt (.wait span count)) { state := .wait remaining }
  | nested {span : Span} {stmts : List Stmt} {frame : Frame} :
      InProgress past (.block stmts) frame → InProgress past (.stmt (.block span stmts)) frame
  | block {stmts : List Stmt} {next : Nat} {stmt : Stmt} {child : Frame} :
      stmts[next]? = some stmt → InProgress past (.stmt stmt) child →
      InProgress past (.block stmts) { state := .block next, children := [(next, child)] }
  | queued {function : Function} {vars : Variables} : function ∈ past.known → function.Binds vars →
      function.signature.callKind.isSynchronized = true → InProgress past (.call function)
        { state := .call { function.newCall with step := .acquireGuard }, vars }
  | declined {function : Function} {vars : Variables} :
      function ∈ past.known → function.Binds vars → InProgress past (.call function)
        { state := .call { function.newCall with step := .runBody }, vars }
  | running {function : Function} {vars : Variables} {body : Frame} : function ∈ past.known →
      function.Binds vars → InProgress past (.block function.body.stmts) body →
      InProgress past (.call function)
        { state := .call { function.newCall with step := .runBody }, vars,
          children := [(0, body)] }

def Started (past : Past) (part : Part) (frame : Frame) : Prop :=
  frame = {} ∨ InProgress past part frame

inductive CallFrame (past : Past) : Frame → Prop
  | fresh : CallFrame past {}
  | going {function : Function} {frame : Frame} : InProgress past (.call function) frame →
      CallFrame past frame
  | lost {frame : Frame} : frame.Lost past → CallFrame past frame

namespace InProgress

variable {past more : Past} {part : Part} {frame : Frame}

theorem mono (progress : InProgress past part frame) (grows : past.Within more) :
    InProgress more part frame := by
  induction progress with
  | operand place _ ih => exact .operand place ih
  | callee complete enters _ ih => exact .callee complete enters ih
  | lost complete lost => exact .lost complete (lost.mono grows)
  | value computes _ ih => exact .value computes ih
  | waiting => exact .waiting
  | nested _ ih => exact .nested ih
  | block place _ ih => exact .block place ih
  | queued among binds locks => exact .queued (grows.known _ among) binds locks
  | declined among binds => exact .declined (grows.known _ among) binds
  | running among binds _ ih => exact .running (grows.known _ among) binds ih

theorem call_held {function : Function} (progress : InProgress past (.call function) frame) :
    function ∈ past.known ∧ ∃ step, frame.state = .call { function.newCall with step } := by
  cases progress with
  | queued among => exact ⟨among, .acquireGuard, rfl⟩
  | declined among => exact ⟨among, .runBody, rfl⟩
  | running among => exact ⟨among, .runBody, rfl⟩

end InProgress

theorem CallFrame.mono {past more : Past} {frame : Frame} (shape : CallFrame past frame)
    (grows : past.Within more) : CallFrame more frame := by
  cases shape with
  | fresh => exact .fresh
  | going progress => exact .going (progress.mono grows)
  | lost lost => exact .lost (lost.mono grows)

namespace Frame

mutual

def awaited : Frame → List String
  | ⟨state, _, _, children⟩ =>
      let nested := awaitedIn children
      match state with
      | .call call => (if call.step = .acquireGuard then call.owner.toList else []) ++ nested
      | .fresh | .block _ | .wait _ | .eval => nested

def awaitedIn : List (Nat × Frame) → List String
  | [] => []
  | (_, child) :: rest => child.awaited ++ awaitedIn rest

end

@[simp] theorem awaited_fresh : ({} : Frame).awaited = [] := by
  simp [awaited, awaitedIn]

@[simp] theorem awaitedIn_nil : awaitedIn [] = [] := by
  simp [awaitedIn]

@[simp] theorem awaitedIn_single (slot : Nat) (child : Frame) :
    awaitedIn [(slot, child)] = child.awaited := by
  simp [awaitedIn]

@[simp] theorem awaited_wait (remaining : Nat) (vars : Variables) (temps : List Value)
    (children : List (Nat × Frame)) :
    awaited ⟨.wait remaining, vars, temps, children⟩ = awaitedIn children := by
  simp [awaited]

@[simp] theorem awaited_call (call : Call) (vars : Variables) (temps : List Value)
    (children : List (Nat × Frame)) :
    awaited ⟨.call call, vars, temps, children⟩ =
      (if call.step = .acquireGuard then call.owner.toList else []) ++ awaitedIn children := by
  simp [awaited]

def isOrphan (heap : Heap) (temps : List Value) (child : Frame) : Bool :=
  child.call?.any fun call => call.kind.isDispatched &&
    (temps.head?.bind Value.asObject?).any fun handle => (heap.get? handle).isNone

mutual

/-- Whether calls go on with a frame tree as they left it: their functions are loaded, the objects
they were called on are there, and no more calls are nested than may be. -/
def continues (code : Code) (heap : Heap) (depth : Nat) : Frame → Bool
  | ⟨state, _, temps, children⟩ =>
      match state with
      | .call call =>
          decide (0 < depth) && (code.programs.function? call.program call.function).isSome &&
            continueIn code heap (depth - 1) [] children
      | .fresh | .block _ | .wait _ | .eval => continueIn code heap depth temps children

def continueIn (code : Code) (heap : Heap) (depth : Nat) (temps : List Value) :
    List (Nat × Frame) → Bool
  | [] => true
  | (_, child) :: rest =>
      !child.isOrphan heap temps && child.continues code heap depth &&
        continueIn code heap depth temps rest

end

section

variable {code : Code} {heap : Heap} {depth : Nat}

@[simp] theorem continues_call (call : Call) (vars : Variables) (temps : List Value)
    (children : List (Nat × Frame)) :
    continues code heap depth ⟨.call call, vars, temps, children⟩ =
      (decide (0 < depth) && (code.programs.function? call.program call.function).isSome &&
        continueIn code heap (depth - 1) [] children) := by
  rw [continues]

@[simp] theorem continueIn_nil (temps : List Value) :
    continueIn code heap depth temps [] = true := by
  rw [continueIn]

@[simp] theorem continueIn_single (temps : List Value) (slot : Nat) (child : Frame) :
    continueIn code heap depth temps [(slot, child)] =
      (!child.isOrphan heap temps && child.continues code heap depth) := by
  simp [continueIn]

theorem continues_fresh : continues code heap depth {} = true := by
  simp [continues]

theorem loaded_of_continues {frame : Frame} {call : Call}
    (continues : frame.continues code heap depth = true) (held : frame.state = .call call) :
    0 < depth ∧ (code.programs.function? call.program call.function).isSome = true := by
  obtain ⟨state, vars, temps, children⟩ := frame
  dsimp only at held
  subst held
  simp only [continues_call, Bool.and_eq_true, decide_eq_true_eq] at continues
  exact continues.1

end

@[simp] theorem heldGuards_fresh : ({} : Frame).heldGuards = [] := by
  simp [heldGuards, heldGuardsIn]

@[simp] theorem heldGuardsIn_nil : heldGuardsIn [] = [] := by
  simp [heldGuardsIn]

@[simp] theorem heldGuardsIn_single (slot : Nat) (child : Frame) :
    heldGuardsIn [(slot, child)] = child.heldGuards := by
  simp [heldGuardsIn]

@[simp] theorem heldGuards_eval (vars : Variables) (temps : List Value)
    (children : List (Nat × Frame)) :
    heldGuards ⟨.eval, vars, temps, children⟩ = heldGuardsIn children := by
  simp [heldGuards]

@[simp] theorem heldGuards_block (next : Nat) (vars : Variables) (temps : List Value)
    (children : List (Nat × Frame)) :
    heldGuards ⟨.block next, vars, temps, children⟩ = heldGuardsIn children := by
  simp [heldGuards]

@[simp] theorem heldGuards_wait (remaining : Nat) (vars : Variables) (temps : List Value)
    (children : List (Nat × Frame)) :
    heldGuards ⟨.wait remaining, vars, temps, children⟩ = heldGuardsIn children := by
  simp [heldGuards]

@[simp] theorem heldGuards_call (call : Call) (vars : Variables) (temps : List Value)
    (children : List (Nat × Frame)) :
    heldGuards ⟨.call call, vars, temps, children⟩ =
      call.heldGuard?.toList ++ heldGuardsIn children := by
  simp [heldGuards]

theorem nested_of_plain {frame : Frame} (plain : frame.call? = none) :
    frame.heldGuards = heldGuardsIn frame.children ∧ frame.awaited = awaitedIn frame.children ∧
      ∀ code heap depth, frame.continues code heap depth =
        continueIn code heap depth frame.temps frame.children := by
  obtain ⟨state, vars, temps, children⟩ := frame
  cases state with
  | call call => cases plain
  | fresh | block | wait | eval => simp [heldGuards, awaited, continues]

structure Single (slot : Nat) (frame : Frame) : Prop where
  removed : frame.withoutChild slot = { frame with children := [] }
  placed : ∀ child, frame.withChild slot child = { frame with children := [(slot, child)] }
  only : frame.children = [] ∧ frame.child slot = {} ∨
    frame.children = [(slot, frame.child slot)]

theorem single_of_nil {slot : Nat} {frame : Frame} (leaf : frame.children = []) :
    Single slot frame where
  removed := by simp [withoutChild, leaf]
  placed := by simp [withChild, leaf, place]
  only := by simp [leaf, child, child?]

theorem single_of_child {slot : Nat} {frame child : Frame}
    (only : frame.children = [(slot, child)]) : Single slot frame where
  removed := by simp [withoutChild, only]
  placed := by simp [withChild, only, place]
  only := by simp [only, Frame.child, child?]

theorem Single.guards {slot : Nat} {frame : Frame} (single : Single slot frame) :
    heldGuardsIn frame.children = (frame.child slot).heldGuards := by
  rcases single.only with ⟨leaf, bare⟩ | only
  · simp [leaf, bare]
  · rw [only, heldGuardsIn_single]

theorem Single.awaited {slot : Nat} {frame : Frame} (single : Single slot frame) :
    awaitedIn frame.children = (frame.child slot).awaited := by
  rcases single.only with ⟨leaf, bare⟩ | only
  · simp [leaf, bare]
  · rw [only, awaitedIn_single]

theorem Single.continues {slot : Nat} {frame : Frame} (single : Single slot frame) {code : Code}
    {heap : Heap} {depth : Nat} {temps : List Value}
    (continues : continueIn code heap depth temps frame.children = true) :
    (frame.child slot).isOrphan heap temps = false ∧
      (frame.child slot).continues code heap depth = true := by
  rcases single.only with ⟨leaf, bare⟩ | only
  · rw [bare]
    exact ⟨rfl, continues_fresh⟩
  · rw [only, continueIn_single] at continues
    simpa using continues

theorem Single.withChild_children {slot : Nat} {frame : Frame} (single : Single slot frame)
    (child : Frame) : (frame.withChild slot child).children = [(slot, child)] := by
  rw [single.placed]

theorem child_of_nil {slot : Nat} {frame : Frame} (leaf : frame.children = []) :
    frame.child slot = {} := by
  simp [child, child?, leaf]

theorem child_of_child {slot : Nat} {frame child : Frame}
    (only : frame.children = [(slot, child)]) : frame.child slot = child := by
  simp [Frame.child, child?, only]

theorem child_single (state : FrameState) (vars : Variables) (temps : List Value)
    (slot : Nat) (child : Frame) :
    Frame.child ⟨state, vars, temps, [(slot, child)]⟩ slot = child :=
  child_of_child rfl

theorem withoutChild_single (state : FrameState) (vars : Variables) (temps : List Value)
    (slot : Nat) (child : Frame) :
    withoutChild ⟨state, vars, temps, [(slot, child)]⟩ slot = ⟨state, vars, temps, []⟩ :=
  (single_of_child rfl).removed

end Frame

end ScriptEngine
