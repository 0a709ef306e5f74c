import ScriptEngine.Proofs.Hosting
import ScriptEngine.Proofs.Tallying
/-! Restoring follows a frame tree as running would. On the frames of a suspended call whose
variables lost their bindings it comes down to every call in progress, binds what that call has
made so far, and leaves everything else as it is. -/

namespace ScriptEngine

def FrameState.running : FrameState → FrameState
  | .call held => .call { held with step := .runBody }
  | state => state

mutual

def Frame.trimmed (code : Code) : Frame → Frame
  | ⟨state, vars, temps, children⟩ =>
      if state.isLoaded code then ⟨state, vars, temps, Frame.trimmedIn code children⟩
      else { state := state.running }

def Frame.trimmedIn (code : Code) : List (Nat × Frame) → List (Nat × Frame)
  | [] => []
  | (slot, child) :: rest => (slot, child.trimmed code) :: Frame.trimmedIn code rest

end

mutual

/-- A frame tree as it is restored: in calls whose functions are gone nothing is bound again. -/
def Frame.rebuilt (code : Code) : Frame → Frame
  | ⟨state, vars, temps, children⟩ =>
      if state.isLoaded code then ⟨state, vars, temps, Frame.rebuiltIn code children⟩
      else Frame.unbound ⟨state, vars, temps, children⟩

def Frame.rebuiltIn (code : Code) : List (Nat × Frame) → List (Nat × Frame)
  | [] => []
  | (slot, child) :: rest => (slot, child.rebuilt code) :: Frame.rebuiltIn code rest

end

namespace Frame

variable {code : Code}

theorem trimmed_of_loaded {state : FrameState} (loaded : state.isLoaded code = true)
    (vars : Variables) (temps : List Value) (children : List (Nat × Frame)) :
    trimmed code ⟨state, vars, temps, children⟩ =
      ⟨state, vars, temps, trimmedIn code children⟩ := by
  rw [trimmed, if_pos loaded]

theorem trimmed_of_gone {state : FrameState} (gone : state.isLoaded code = false)
    (vars : Variables) (temps : List Value) (children : List (Nat × Frame)) :
    trimmed code ⟨state, vars, temps, children⟩ = { state := state.running } := by
  rw [trimmed, if_neg (by simp [gone])]

mutual

theorem trimmed_eq : ∀ {frame : Frame}, frame.isLoaded code = true → frame.trimmed code = frame
  | ⟨state, vars, temps, children⟩, loaded => by
      rw [isLoaded, Bool.and_eq_true] at loaded
      rw [trimmed_of_loaded loaded.1, trimmedIn_eq loaded.2]

theorem trimmedIn_eq : ∀ {children : List (Nat × Frame)}, areLoaded code children = true →
    trimmedIn code children = children
  | [], _ => rfl
  | (slot, child) :: rest, loaded => by
      rw [areLoaded, Bool.and_eq_true] at loaded
      rw [trimmedIn, trimmed_eq loaded.1, trimmedIn_eq loaded.2]

end

theorem rebuilt_of_loaded {state : FrameState} (loaded : state.isLoaded code = true)
    (vars : Variables) (temps : List Value) (children : List (Nat × Frame)) :
    rebuilt code ⟨state, vars, temps, children⟩ =
      ⟨state, vars, temps, rebuiltIn code children⟩ := by
  rw [rebuilt, if_pos loaded]

theorem rebuilt_of_gone {state : FrameState} (gone : state.isLoaded code = false)
    (vars : Variables) (temps : List Value) (children : List (Nat × Frame)) :
    rebuilt code ⟨state, vars, temps, children⟩ = unbound ⟨state, vars, temps, children⟩ := by
  rw [rebuilt, if_neg (by simp [gone])]

mutual

theorem rebuilt_eq : ∀ {frame : Frame}, frame.isLoaded code = true → frame.rebuilt code = frame
  | ⟨state, vars, temps, children⟩, loaded => by
      rw [isLoaded, Bool.and_eq_true] at loaded
      rw [rebuilt_of_loaded loaded.1, rebuiltIn_eq loaded.2]

theorem rebuiltIn_eq : ∀ {children : List (Nat × Frame)}, areLoaded code children = true →
    rebuiltIn code children = children
  | [], _ => rfl
  | (slot, child) :: rest, loaded => by
      rw [areLoaded, Bool.and_eq_true] at loaded
      rw [rebuiltIn, rebuilt_eq loaded.1, rebuiltIn_eq loaded.2]

end

mutual

theorem trimmed_rebuilt : ∀ frame : Frame, (frame.rebuilt code).trimmed code = frame.trimmed code
  | ⟨state, vars, temps, children⟩ => by
      cases loaded : state.isLoaded code with
      | true =>
          rw [rebuilt_of_loaded loaded, trimmed_of_loaded loaded, trimmed_of_loaded loaded,
            trimmedIn_rebuiltIn children]
      | false =>
          rw [rebuilt_of_gone loaded, unbound, trimmed_of_gone loaded, trimmed_of_gone loaded]

theorem trimmedIn_rebuiltIn : ∀ children : List (Nat × Frame),
    trimmedIn code (rebuiltIn code children) = trimmedIn code children
  | [] => rfl
  | (slot, child) :: rest => by
      rw [rebuiltIn, trimmedIn, trimmedIn, trimmed_rebuilt child, trimmedIn_rebuiltIn rest]

end

end Frame

namespace Function

theorem rebind_unbound {function : Function} {var : Variable}
    (bound : var.binding = function.binding var.name) :
    Restoration.rebind function (var.bind .unbound) = var := by
  obtain ⟨name, type, value, init, isPrivate, binding⟩ := var
  dsimp only at bound
  subst bound
  cases known : function.localId? name with
  | some id => simp [Restoration.rebind, Function.binding, Variable.bind, known]
  | none =>
      cases reserved : Reserved.ofName? name with
      | none => simp [Restoration.rebind, Function.binding, Variable.bind, known, reserved]
      | some word =>
          by_cases owned : function.owner.isSome = true
          · simp [Restoration.rebind, Function.binding, Variable.bind, known, reserved, owned]
          · simp [Restoration.rebind, Function.binding, Variable.bind, known, reserved, owned]

theorem rebind_all {function : Function} {vars : Variables} (binds : function.Binds vars) :
    (vars.map fun var => var.bind .unbound).map (Restoration.rebind function) = vars := by
  rw [List.map_map]
  refine (List.map_congr_left fun var among => ?_).trans (List.map_id vars)
  exact rebind_unbound (binds var among)

end Function

namespace Restoration

/-- What is known of a frame and of the guards goes down to a child and comes back with what the child
is restored to. -/
structure Steady (holds : Frame → GuardTable → Prop) : Prop where
  down : ∀ {frame child : Frame} {slot : Nat} {guards : GuardTable}, holds frame guards →
    frame.child? slot = some child → holds child guards
  back : ∀ {frame child : Frame} {guards after : GuardTable} (slot : Nat), holds frame guards →
    holds child after → holds (frame.withChild slot child) after

def Keeps (holds : Frame → GuardTable → Prop) (restore : Restore) : Prop :=
  ∀ frame guards, holds frame guards → holds (restore frame guards).1 (restore frame guards).2

namespace Steady

variable {holds : Frame → GuardTable → Prop} {call : Restore}

theorem onChild (steady : Steady holds) {restore : Restore} (keeps : Keeps holds restore)
    (slot : Nat) : Keeps holds (onChild slot restore) := by
  intro frame guards held
  unfold Restoration.onChild
  split
  · exact held
  · rename_i child found
    exact steady.back slot held (keeps child guards (steady.down held found))

mutual

theorem restoreExpr (steady : Steady holds) (keeps : Keeps holds call) :
    ∀ expr : Expr, Keeps holds (restoreExpr call expr)
  | .literal .., _, _, held => held
  | .var .., _, _, held => held
  | .negate _ _ inner, frame, guards, held => by
      rw [Restoration.restoreExpr]
      split
      · exact steady.onChild (steady.restoreExpr keeps inner) 0 frame guards held
      · exact held
  | .binary _ _ _ first second, frame, guards, held => by
      rw [Restoration.restoreExpr]
      split
      · exact steady.onChild (steady.restoreExpr keeps first) 0 frame guards held
      · exact steady.onChild (steady.restoreExpr keeps second) 1 frame guards held
      · exact held
  | .call _ _ _ operands, frame, guards, held => by
      rw [Restoration.restoreExpr]
      split
      · exact steady.restoreOperands keeps 0 operands frame guards held
      · exact held

theorem restoreOperands (steady : Steady holds) (keeps : Keeps holds call) (place : Nat) :
    ∀ operands : List Expr, Keeps holds (restoreOperands call place operands)
  | [], frame, guards, held => by
      rw [Restoration.restoreOperands]
      exact steady.onChild keeps _ frame guards held
  | first :: rest, frame, guards, held => by
      rw [Restoration.restoreOperands]
      split
      · exact steady.onChild (steady.restoreExpr keeps first) place frame guards held
      · exact steady.restoreOperands keeps (place + 1) rest frame guards held

end

mutual

theorem restoreStmt (steady : Steady holds) (keeps : Keeps holds call) :
    ∀ stmt : Stmt, Keeps holds (restoreStmt call stmt)
  | .block _ stmts => steady.restoreStmts keeps 0 stmts
  | .return _ none => fun _ _ held => held
  | .return _ (some expr) => steady.restoreExpr keeps expr
  | .wait _ count => steady.restoreExpr keeps count
  | .declare _ _ _ _ none => fun _ _ held => held
  | .declare _ _ _ _ (some expr) => steady.restoreExpr keeps expr
  | .assign _ _ expr => steady.restoreExpr keeps expr
  | .expr expr => steady.restoreExpr keeps expr

theorem restoreStmts (steady : Steady holds) (keeps : Keeps holds call) (place : Nat) :
    ∀ stmts : List Stmt, Keeps holds (restoreStmts call place stmts)
  | [] => fun _ _ held => held
  | first :: rest => by
      intro frame guards held
      rw [Restoration.restoreStmts]
      split
      · exact steady.onChild (steady.restoreStmt keeps first) place frame guards held
      · exact steady.restoreStmts keeps (place + 1) rest frame guards held

end

theorem restore (steady : Steady holds) {code : Code} {context : ContextId}
    (binds : ∀ {frame guards} function call, holds frame guards →
      holds { frame with vars := frame.vars.map (rebind function) }
        (retakeGuard context function call guards)) :
    Keeps holds (restore code context) := by
  have calls : ∀ levels, Keeps holds (restoreCall code context levels) := by
    intro levels
    induction levels with
    | zero => exact fun _ _ held => held
    | succ levels ih =>
        intro frame guards held
        unfold restoreCall
        split
        · exact held
        · split
          · exact held
          · dsimp only
            split
            · exact steady.onChild (steady.restoreStmts ih 0 _) 0 _ _ (binds _ _ held)
            · exact binds _ _ held
  exact fun frame => calls frame.height frame

end Steady

variable {past : Past} {code : Code} {context : ContextId}

def restorePart (code : Code) (context : ContextId) (levels : Nat) : Part → Restore
  | .expr expr => restoreExpr (restoreCall code context levels) expr
  | .stmt stmt => restoreStmt (restoreCall code context levels) stmt
  | .block stmts => restoreStmts (restoreCall code context levels) 0 stmts
  | .call _ => restoreCall code context levels

def Resumable (past : Past) : Part → Frame → Prop
  | .call function, frame => InProgress past (.call function) frame ∨ frame.Lost past
  | part, frame => InProgress past part frame

def Rebuilds (past : Past) (code : Code) (part : Part) (frame : Frame) (restore : Restore) : Prop :=
  ∀ guards, Resumable past part (restore frame.unbound guards).1 ∧
    (restore frame.unbound guards).1 = frame.rebuilt code

theorem onChild_single {state : FrameState} {vars : Variables} {temps : List Value} {slot : Nat}
    {child : Frame} {restore : Restore} {guards : GuardTable} :
    onChild slot restore ⟨state, vars, temps, [(slot, child)]⟩ guards =
      (⟨state, vars, temps, [(slot, (restore child guards).1)]⟩, (restore child guards).2) := by
  simp [onChild, Frame.child?, Frame.withChild, Frame.place]

theorem restoreOperands_eq (call : Restore) (frame : Frame) :
    ∀ (operands before : List Expr), before.length ≤ frame.temps.length →
      restoreOperands call before.length operands frame =
        match operands[frame.temps.length - before.length]? with
        | some operand => onChild frame.temps.length (restoreExpr call operand) frame
        | none => onChild frame.temps.length call frame
  | [], before, reached => by
      funext guards
      rw [restoreOperands]
      rfl
  | first :: rest, before, reached => by
      funext guards
      rw [restoreOperands]
      by_cases same : before.length = frame.temps.length
      · rw [if_pos same, same, Nat.sub_self]
        rfl
      · rw [if_neg same]
        have further : (before ++ [first]).length ≤ frame.temps.length := by
          simp only [List.length_append, List.length_singleton]
          omega
        have behind := restoreOperands_eq call frame rest (before ++ [first]) further
        have one : frame.temps.length - before.length =
            (frame.temps.length - (before ++ [first]).length) + 1 := by
          simp only [List.length_append, List.length_singleton] at further ⊢
          omega
        rw [one, List.getElem?_cons_succ, ← behind]
        simp

theorem restoreExpr_operand (call : Restore) {expr operand : Expr} {temps : List Value}
    {children : List (Nat × Frame)} (placed : expr.operands[temps.length]? = some operand) :
    restoreExpr call expr ⟨.eval, [], temps, children⟩ =
      onChild temps.length (restoreExpr call operand) ⟨.eval, [], temps, children⟩ := by
  funext guards
  cases expr with
  | literal | var => simp [Expr.operands] at placed
  | negate type span inner =>
      cases temps with
      | nil =>
          cases placed
          rw [restoreExpr]
          rfl
      | cons value temps => simp [Expr.operands] at placed
  | binary type span operator left right =>
      rcases temps with _ | ⟨value, _ | ⟨second, temps⟩⟩
      · cases placed
        rw [restoreExpr]
        rfl
      · cases placed
        rw [restoreExpr]
        rfl
      · simp [Expr.operands] at placed
  | call type span site operands =>
      have found := restoreOperands_eq call ⟨.eval, [], temps, children⟩ operands [] (Nat.zero_le _)
      rw [restoreExpr]
      exact (congrFun found guards).trans (by
        dsimp only [Expr.operands] at placed
        simp only [List.length_nil, Nat.sub_zero, placed])

theorem restoreExpr_of_wait (call : Restore) (expr : Expr) {frame : Frame} {remaining : Nat}
    (waiting : frame.state = .wait remaining) (guards : GuardTable) :
    restoreExpr call expr frame guards = (frame, guards) := by
  cases expr <;> simp [restoreExpr, waiting]

theorem restoreExpr_callee (call : Restore) {type : DataType} {span : Span} {site : CallSite}
    {operands : List Expr} {temps : List Value} {children : List (Nat × Frame)}
    (complete : temps.length = operands.length) :
    restoreExpr call (.call type span site operands) ⟨.eval, [], temps, children⟩ =
      onChild temps.length call ⟨.eval, [], temps, children⟩ := by
  funext guards
  have found := restoreOperands_eq call ⟨.eval, [], temps, children⟩ operands [] (Nat.zero_le _)
  rw [restoreExpr]
  exact (congrFun found guards).trans (by
    simp only [List.length_nil, Nat.sub_zero, complete, List.getElem?_length])

theorem restoreStmts_at (call : Restore) {next : Nat} {stmt : Stmt} {frame : Frame}
    (blocked : frame.state = .block next) :
    ∀ (stmts before : List Stmt), before.length ≤ next →
      stmts[next - before.length]? = some stmt →
      restoreStmts call before.length stmts frame = onChild next (restoreStmt call stmt) frame
  | [], before, reached, placed => by
      cases placed
  | first :: rest, before, reached, placed => by
      funext guards
      rw [restoreStmts]
      by_cases same : next = before.length
      · subst same
        rw [Nat.sub_self] at placed
        cases placed
        rw [if_pos blocked]
      · have other : ¬ frame.state = FrameState.block before.length := by
          intro states
          exact same (FrameState.block.inj (blocked.symm.trans states))
        rw [if_neg other]
        have further : (before ++ [first]).length ≤ next := by
          simp only [List.length_append, List.length_singleton]
          omega
        have one : next - before.length = (next - (before ++ [first]).length) + 1 := by
          simp only [List.length_append, List.length_singleton] at further ⊢
          omega
        rw [one, List.getElem?_cons_succ] at placed
        have behind := restoreStmts_at call blocked rest (before ++ [first]) further placed
        rw [← behind]
        simp

end Restoration

namespace Frame

@[simp] theorem unbound_single (state : FrameState) (vars : Variables) (temps : List Value)
    (slot : Nat) (child : Frame) :
    unbound ⟨state, vars, temps, [(slot, child)]⟩ =
      ⟨state, vars.map fun var => var.bind .unbound, temps, [(slot, child.unbound)]⟩ := by
  simp [unbound, unboundIn]

@[simp] theorem unbound_leaf (state : FrameState) (vars : Variables) (temps : List Value) :
    unbound ⟨state, vars, temps, []⟩ =
      ⟨state, vars.map fun var => var.bind .unbound, temps, []⟩ := by
  simp [unbound, unboundIn]

mutual

theorem height_unbound : ∀ frame : Frame, frame.unbound.height = frame.height
  | ⟨state, vars, temps, children⟩ => by
      rw [unbound, height, height, heights_unboundIn children]

theorem heights_unboundIn : ∀ children : List (Nat × Frame),
    heights (unboundIn children) = heights children
  | [] => rfl
  | (slot, child) :: rest => by
      rw [unboundIn, heights, heights, height_unbound child, heights_unboundIn rest]

end

theorem height_single (state : FrameState) (vars : Variables) (temps : List Value) (slot : Nat)
    (child : Frame) : height ⟨state, vars, temps, [(slot, child)]⟩ = child.height + 1 := by
  simp [height, heights]

end Frame

namespace Restoration

variable {past : Past} {code : Code} {context : ContextId}

theorem Rebuilds.nested {outer inner : Part} {state : FrameState} {temps : List Value}
    {slot : Nat} {child : Frame} {restore nested : Restore}
    (plain : state.isLoaded code = true)
    (descends : ∀ child, restore ⟨state, [], temps, [(slot, child)]⟩ =
      onChild slot nested ⟨state, [], temps, [(slot, child)]⟩)
    (rebuilds : Rebuilds past code inner child nested)
    (resumes : ∀ restored, Resumable past inner restored →
      Resumable past outer ⟨state, [], temps, [(slot, restored)]⟩) :
    Rebuilds past code outer ⟨state, [], temps, [(slot, child)]⟩ restore := by
  intro guards
  obtain ⟨resumable, same⟩ := rebuilds guards
  rw [Frame.unbound_single, List.map_nil, descends, onChild_single, Frame.rebuilt_of_loaded plain,
    Frame.rebuiltIn, Frame.rebuiltIn, ← same]
  exact ⟨resumes _ resumable, rfl⟩

theorem restoreCall_lost (fits : past.Fits code) {frame : Frame} (lost : frame.Lost past)
    (levels : Nat) (guards : GuardTable) :
    (restoreCall code context levels frame.unbound guards).1.Lost past ∧
      (restoreCall code context levels frame.unbound guards).1 = frame.rebuilt code := by
  obtain ⟨call, held, gone⟩ := lost
  have missing := fits.gone _ _ gone
  obtain ⟨state, vars, temps, children⟩ := frame
  dsimp only at held
  subst held
  have same : (restoreCall code context levels
      (Frame.unbound ⟨.call call, vars, temps, children⟩) guards).1 =
        Frame.unbound ⟨.call call, vars, temps, children⟩ := by
    cases levels with
    | zero => rfl
    | succ levels => simp [restoreCall, Frame.unbound, Frame.call?, missing]
  have unloaded : (FrameState.call call).isLoaded code = false := by
    rw [FrameState.isLoaded, missing]
    rfl
  rw [same, Frame.rebuilt_of_gone unloaded]
  exact ⟨⟨call, by rw [Frame.unbound], gone⟩, rfl⟩

theorem lost_rebuilds (fits : past.Fits code) (function : Function) {frame : Frame}
    (lost : frame.Lost past) (levels : Nat) :
    Rebuilds past code (.call function) frame (restoreCall code context levels) := by
  intro guards
  obtain ⟨still, same⟩ := restoreCall_lost fits lost levels guards
  exact ⟨.inr still, same⟩

theorem restoreCall_found {function : Function} {call : Call} {vars : Variables}
    {children : List (Nat × Frame)} {guards : GuardTable} (binds : function.Binds vars)
    (found : code.programs.function? call.program call.function = some function) (levels : Nat) :
    restoreCall code context (levels + 1)
        ⟨.call call, vars.map fun var => var.bind .unbound, [], children⟩ guards =
      if call.step = .runBody then
        onChild 0 (restoreStmts (restoreCall code context levels) 0 function.body.stmts)
          ⟨.call call, vars, [], children⟩ (retakeGuard context function call guards)
      else (⟨.call call, vars, [], children⟩, retakeGuard context function call guards) := by
  simp only [restoreCall, Frame.call?, found, Function.rebind_all binds]

theorem leafCall_rebuilds (fits : past.Fits code) {function : Function} {step : CallStep}
    {vars : Variables} (among : function ∈ past.known) (binds : function.Binds vars)
    (progress : InProgress past (.call function)
      ⟨.call { function.newCall with step }, vars, [], []⟩) (levels : Nat) :
    Rebuilds past code (.call function) ⟨.call { function.newCall with step }, vars, [], []⟩
      (restoreCall code context (levels + 1)) := by
  cases found : code.programs.function? function.program function.id with
  | none =>
      exact lost_rebuilds fits function ⟨_, rfl, fits.settled function among found⟩ (levels + 1)
  | some loaded =>
      rw [fits.same function among loaded found] at found
      intro guards
      have same : (restoreCall code context (levels + 1) (Frame.unbound
          ⟨.call { function.newCall with step }, vars, [], []⟩) guards).1 =
            ⟨.call { function.newCall with step }, vars, [], []⟩ := by
        rw [Frame.unbound_leaf, restoreCall_found binds found]
        split <;> rfl
      have held : (FrameState.call { function.newCall with step }).isLoaded code = true := by
        simp [FrameState.isLoaded, Function.newCall, found]
      rw [same, Frame.rebuilt_of_loaded held, Frame.rebuiltIn]
      exact ⟨.inl progress, rfl⟩

theorem restorePart_value {stmt : Stmt} {expr : Expr} (computes : stmt.value? = some expr)
    (levels : Nat) : restorePart code context levels (.stmt stmt) =
      restorePart code context levels (.expr expr) := by
  funext frame guards
  cases stmt with
  | block => cases computes
  | «return» span value? | declare span id name type value? =>
      cases computes
      simp only [restorePart, restoreStmt]
  | wait | assign | expr =>
      cases computes
      simp only [restorePart, restoreStmt]

theorem inProgress_rebuilds (fits : past.Fits code) {part : Part} {frame : Frame}
    (progress : InProgress past part frame) :
    ∀ levels, frame.height ≤ levels →
      Rebuilds past code part frame (restorePart code context levels part) := by
  induction progress with
  | operand placed _ ih =>
      intro levels high
      rw [Frame.height_single] at high
      exact (ih levels (Nat.le_of_succ_le high)).nested rfl
        (fun child => restoreExpr_operand _ placed) fun _ restored => .operand placed restored
  | @callee type span site operands _ _ _ complete enters _ ih =>
      intro levels high
      rw [Frame.height_single] at high
      refine (ih levels (Nat.le_of_succ_le high)).nested rfl
        (fun child => @restoreExpr_callee _ type span site operands _ _ complete)
        fun _ restored => ?_
      rcases restored with progress | lost
      · exact .callee complete enters progress
      · exact .lost complete lost
  | @lost type span site operands temps child complete lost =>
      intro levels high guards
      obtain ⟨still, same⟩ := @restoreCall_lost _ _ context fits _ lost levels guards
      rw [restorePart, Frame.unbound_single, List.map_nil, restoreExpr_callee _ complete,
        onChild_single, same, Frame.rebuilt_of_loaded rfl, Frame.rebuiltIn, Frame.rebuiltIn, ← same]
      exact ⟨.lost complete still, rfl⟩
  | @value stmt expr frame computes progress ih =>
      intro levels high guards
      rw [restorePart_value computes]
      obtain ⟨resumable, rebuilt⟩ := ih levels high guards
      exact ⟨.value computes resumable, rebuilt⟩
  | waiting =>
      intro levels high guards
      simp only [restorePart, restoreStmt, Frame.unbound_leaf]
      rw [restoreExpr_of_wait _ _ rfl, Frame.rebuilt_of_loaded rfl, Frame.rebuiltIn]
      exact ⟨.waiting, rfl⟩
  | nested progress ih =>
      intro levels high guards
      obtain ⟨resumable, rebuilt⟩ := ih levels high guards
      simp only [restorePart, restoreStmt] at resumable rebuilt ⊢
      exact ⟨.nested resumable, rebuilt⟩
  | block placed _ ih =>
      intro levels high
      rw [Frame.height_single] at high
      exact (ih levels (Nat.le_of_succ_le high)).nested rfl
        (fun child => restoreStmts_at _ rfl _ [] (Nat.zero_le _) placed)
        fun _ restored => .block placed restored
  | queued among binds locks =>
      intro levels high
      obtain ⟨levels, rfl⟩ := Nat.exists_eq_succ_of_ne_zero (Nat.ne_of_gt high)
      exact leafCall_rebuilds fits among binds (.queued among binds locks) levels
  | declined among binds =>
      intro levels high
      obtain ⟨levels, rfl⟩ := Nat.exists_eq_succ_of_ne_zero (Nat.ne_of_gt high)
      exact leafCall_rebuilds fits among binds (.declined among binds) levels
  | @running function vars body among binds progress ih =>
      intro levels high
      rw [Frame.height_single] at high
      obtain ⟨levels, rfl⟩ := Nat.exists_eq_add_of_lt high
      -- The inside of a call is restored along its body, so only if that is still there.
      cases found : code.programs.function? function.program function.id with
      | none =>
          exact lost_rebuilds fits function ⟨_, rfl, fits.settled function among found⟩ _
      | some loaded =>
          rw [fits.same function among loaded found] at found
          intro guards
          have inside := ih (body.height + levels) (Nat.le_add_right ..)
          have held : (FrameState.call { function.newCall with step := .runBody }).isLoaded code =
              true := by
            simp [FrameState.isLoaded, Function.newCall, found]
          obtain ⟨resumable, same⟩ := inside (retakeGuard context function
            { function.newCall with step := .runBody } guards)
          change Resumable past (.call function) (restoreCall code context _ _ guards).1 ∧
            (restoreCall code context _ _ guards).1 = _
          rw [Frame.unbound_single, restoreCall_found binds found, if_pos rfl, onChild_single,
            Frame.rebuilt_of_loaded held, Frame.rebuiltIn, Frame.rebuiltIn, ← same]
          exact ⟨.inl (.running among binds resumable), rfl⟩

/-- What restoring makes of a stack's frames. -/
theorem callFrame_rebuilds (fits : past.Fits code) {frame : Frame} (shape : CallFrame past frame)
    (guards : GuardTable) :
    CallFrame past (restore code context frame.unbound guards).1 ∧
      (restore code context frame.unbound guards).1 = frame.rebuilt code := by
  unfold restore
  rw [Frame.height_unbound]
  cases shape with
  | fresh =>
      have same : (restoreCall code context ({} : Frame).height ({} : Frame).unbound guards).1 =
          {} := by
        simp [Frame.height, Frame.heights, restoreCall, Frame.call?]
      rw [same, Frame.rebuilt_eq rfl]
      exact ⟨.fresh, rfl⟩
  | going progress =>
      obtain ⟨resumable, same⟩ := inProgress_rebuilds fits progress frame.height (Nat.le_refl _)
        guards
      refine ⟨?_, same⟩
      rcases resumable with progress | lost
      · exact .going progress
      · exact .lost lost
  | lost lost =>
      obtain ⟨resumable, same⟩ := lost_rebuilds fits default lost frame.height guards
      refine ⟨?_, same⟩
      rcases resumable with progress | lost
      · exact .going progress
      · exact .lost lost

end Restoration

end ScriptEngine
