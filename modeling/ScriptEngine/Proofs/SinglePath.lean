import ScriptEngine.Proofs.Naming
import ScriptEngine.Proofs.Pausing
/-! Suspended stacks. Whatever a host does, also where it saves a stack and restores it, the frames of
a call that yielded are paused: they are one path from the frame of the host's call down to what is
in progress. -/

namespace ScriptEngine

theorem Stmt.reachedIn_child {stmts : List Stmt} {next : Nat} {stmt : Stmt}
    (placed : stmts[next]? = some stmt) (child : Frame) :
    Stmt.reachedIn 0 stmts { state := .block next, children := [(next, child)] } =
      Stmt.localsIn (stmts.take next) ++ stmt.reached child := by
  obtain ⟨inside, same⟩ := List.getElem?_eq_some_iff.mp placed
  have counted : (stmts.take next).length = next := by
    simpa using Nat.le_of_lt inside
  have parts : stmts.take next ++ stmt :: stmts.drop (next + 1) = stmts := by
    rw [← same, ← List.drop_eq_getElem_cons inside, List.take_append_drop]
  have reached := @reachedIn_at { state := .block next, children := [(next, child)] }
    (stmts.take next) (stmts.drop (next + 1)) stmt (by simpa [Frame.nextStatement] using counted.symm)
  rw [parts, counted, Frame.child_single] at reached
  exact reached

structure Remains (known : List Function) (classes : ClassTable) (part : Part)
    (frame after : Frame) : Prop where
  paused : Paused known classes part after
  reached : part.reached after = part.reached frame

section

variable {known : List Function} {classes : ClassTable} {frame after : Frame}

theorem Remains.value {stmt : Stmt} {expr : Expr} (computes : stmt.value? = some expr)
    (remains : Remains known classes (.expr expr) frame after) :
    Remains known classes (.stmt stmt) frame after where
  paused := .value computes remains.paused
  reached := (Stmt.reached_of_value computes _).trans (Stmt.reached_of_value computes _).symm

theorem Remains.nested {span : Span} {stmts : List Stmt}
    (remains : Remains known classes (.block stmts) frame after) :
    Remains known classes (.stmt (.block span stmts)) frame after where
  paused := .nested remains.paused
  reached := by
    rw [Part.reached, Part.reached, Stmt.reached, Stmt.reached]
    exact remains.reached

theorem Remains.block {stmts : List Stmt} {next : Nat} {stmt : Stmt}
    (placed : stmts[next]? = some stmt) (remains : Remains known classes (.stmt stmt) frame after) :
    Remains known classes (.block stmts) { state := .block next, children := [(next, frame)] }
      { state := .block next, children := [(next, after)] } where
  paused := .block placed remains.paused
  reached := by
    have same : stmt.reached after = stmt.reached frame := remains.reached
    rw [Part.reached, Part.reached, Stmt.reachedIn_child placed, Stmt.reachedIn_child placed, same]

theorem Remains.running {function : Function} {vars bound : Variables} (among : function ∈ known)
    (lists : function.Lists classes (Stmt.reachedIn 0 function.body.stmts frame) vars)
    (same : bound.entries = vars.entries)
    (remains : Remains known classes (.block function.body.stmts) frame after) :
    Paused known classes (.call function)
      { state := .call { function.newCall with step := .runBody }, vars := bound,
        children := [(0, after)] } := by
  refine .running among ?_ remains.paused
  have reached : Stmt.reachedIn 0 function.body.stmts after =
      Stmt.reachedIn 0 function.body.stmts frame := remains.reached
  rw [reached]
  exact lists.rename same

theorem Paused.unbound {part : Part} (paused : Paused known classes part frame) :
    Remains known classes part frame frame.unbound := by
  induction paused with
  | operand placed _ ih =>
      rw [Frame.unbound_single]
      exact ⟨.operand placed ih.paused, rfl⟩
  | callee complete _ ih =>
      rw [Frame.unbound_single]
      exact ⟨.callee complete ih.paused, rfl⟩
  | value computes _ ih => exact ih.value computes
  | waiting =>
      rw [Frame.unbound_leaf]
      exact ⟨.waiting, rfl⟩
  | nested _ ih => exact ih.nested
  | block placed _ ih =>
      rw [Frame.unbound_single]
      exact ih.block placed
  | queued among lists locks =>
      rw [Frame.unbound_leaf]
      exact ⟨.queued among (lists.rename (Variables.entries_unbound _)) locks, rfl⟩
  | declined among lists =>
      rw [Frame.unbound_leaf]
      exact ⟨.declined among (lists.rename (Variables.entries_unbound _)), rfl⟩
  | running among lists _ ih =>
      rw [Frame.unbound_single]
      exact ⟨ih.running among lists (Variables.entries_unbound _), rfl⟩

end

theorem Restoration.entries_rebind (function : Function) (vars : Variables) :
    Variables.entries ((vars.map fun var => var.bind .unbound).map (rebind function)) =
      vars.entries := by
  have each : ∀ var : Variable, (rebind function (var.bind .unbound)).entry = var.entry := by
    intro var
    unfold rebind
    split
    · rfl
    · split <;> rfl
    · rfl
  simp [Variables.entries, Function.comp_def, each]

namespace Restoration

variable {past : Past} {code : Code} {context : ContextId} {classes : ClassTable}

theorem restoreCall_leaf (call : Call) (vars : Variables) (levels : Nat) (guards : GuardTable) :
    ∃ bound : Variables, bound.entries = vars.entries ∧
      (restoreCall code context levels (Frame.unbound ⟨.call call, vars, [], []⟩) guards).1 =
        ⟨.call call, bound, [], []⟩ := by
  rw [Frame.unbound_leaf]
  cases levels with
  | zero => exact ⟨_, vars.entries_unbound, rfl⟩
  | succ levels =>
      simp only [restoreCall, Frame.call?]
      split
      · exact ⟨_, vars.entries_unbound, rfl⟩
      · rename_i function _
        refine ⟨_, entries_rebind function vars, ?_⟩
        split <;> rfl

theorem restoreCall_body {call : Call} (runs : call.step = .runBody) (vars : Variables) (body : Frame)
    (levels : Nat) (guards : GuardTable) :
    (restoreCall code context (levels + 1) ⟨.call call, vars, [], [(0, body)]⟩ guards).1 =
      match code.programs.function? call.program call.function with
      | none => ⟨.call call, vars, [], [(0, body)]⟩
      | some function => ⟨.call call, vars.map (rebind function), [],
          [(0, (restoreStmts (restoreCall code context levels) 0 function.body.stmts body
            (retakeGuard context function call guards)).1)]⟩ := by
  simp only [restoreCall, Frame.call?]
  cases code.programs.function? call.program call.function with
  | none => rfl
  | some function => simp only [if_pos runs, onChild_single]

theorem paused_restored (fits : past.Fits code) {part : Part} {frame : Frame}
    (paused : Paused past.known classes part frame) : ∀ levels guards,
      Remains past.known classes part frame
        (restorePart code context levels part frame.unbound guards).1 := by
  induction paused with
  | operand placed _ ih =>
      intro levels guards
      rw [restorePart, Frame.unbound_single, List.map_nil, restoreExpr_operand _ placed,
        onChild_single]
      exact ⟨.operand placed (ih levels guards).paused, rfl⟩
  | @callee type span site _ _ _ _ complete _ ih =>
      intro levels guards
      rw [restorePart, Frame.unbound_single, List.map_nil,
        @restoreExpr_callee _ type span site _ _ _ complete, onChild_single]
      exact ⟨.callee complete (ih levels guards).paused, rfl⟩
  | value computes _ ih =>
      intro levels guards
      rw [restorePart_value computes]
      exact (ih levels guards).value computes
  | waiting =>
      intro levels guards
      simp only [restorePart, restoreStmt, Frame.unbound_leaf]
      rw [restoreExpr_of_wait _ _ rfl]
      exact ⟨.waiting, rfl⟩
  | nested _ ih =>
      intro levels guards
      have inside := ih levels guards
      simp only [restorePart, restoreStmt] at inside ⊢
      exact inside.nested
  | @block stmts next stmt child placed _ ih =>
      intro levels guards
      have descends := @restoreStmts_at (restoreCall code context levels) next stmt
        { state := .block next, children := [(next, child.unbound)] } rfl stmts []
        (Nat.zero_le _) placed
      rw [List.length_nil] at descends
      rw [restorePart, Frame.unbound_single, List.map_nil, descends, onChild_single]
      exact (ih levels guards).block placed
  | queued among lists locks =>
      intro levels guards
      obtain ⟨bound, same, restored⟩ := @restoreCall_leaf code context _ _ levels guards
      rw [restorePart, restored]
      exact ⟨.queued among (lists.rename same) locks, rfl⟩
  | declined among lists =>
      intro levels guards
      obtain ⟨bound, same, restored⟩ := @restoreCall_leaf code context _ _ levels guards
      rw [restorePart, restored]
      exact ⟨.declined among (lists.rename same), rfl⟩
  | @running function vars body among lists paused ih =>
      intro levels guards
      refine ⟨?_, rfl⟩
      have saved := paused.unbound.running among lists vars.entries_unbound
      cases levels with
      | zero =>
          rw [Frame.unbound_single]
          exact saved
      | succ levels =>
          rw [restorePart, Frame.unbound_single, restoreCall_body rfl]
          cases found : code.programs.function? function.program function.id with
          | none =>
              simp only [Function.newCall, found] at saved ⊢
              exact saved
          | some loaded =>
              obtain rfl := fits.same function among loaded found
              have inside := ih levels (retakeGuard context loaded
                { loaded.newCall with step := .runBody } guards)
              have restored := inside.running among lists (entries_rebind loaded vars)
              simp only [Function.newCall, found] at restored ⊢
              exact restored

end Restoration

theorem Paused.moved {past more : Past} {code other : Code} {classes later : ClassTable}
    (fits : past.Fits code) (also : more.Fits other)
    (objects : ∀ function ∈ past.known, function.object later = function.object classes)
    {part : Part} {frame : Frame} (paused : Paused past.known classes part frame)
    (loaded : frame.isLoaded code = true)
    (same : ∀ program ∈ frame.programs, other.programs.get? program = code.programs.get? program) :
    Paused more.known later part frame := by
  induction paused with
  | operand placed _ ih =>
      rw [Frame.isLoaded_single, Bool.and_eq_true] at loaded
      rw [Frame.programs_eval] at same
      exact .operand placed (ih loaded.2 same)
  | callee complete _ ih =>
      rw [Frame.isLoaded_single, Bool.and_eq_true] at loaded
      rw [Frame.programs_eval] at same
      exact .callee complete (ih loaded.2 same)
  | value computes _ ih => exact .value computes (ih loaded same)
  | waiting => exact .waiting
  | nested _ ih => exact .nested (ih loaded same)
  | block placed _ ih =>
      rw [Frame.isLoaded_single, Bool.and_eq_true] at loaded
      rw [Frame.programs_block] at same
      exact .block placed (ih loaded.2 same)
  | queued among lists locks =>
      rw [Frame.isLoaded_leaf] at loaded
      rw [Frame.programs_call] at same
      exact .queued (fits.moved also among loaded (same _ (List.mem_cons_self ..)))
        (lists.congr (objects _ among)) locks
  | declined among lists =>
      rw [Frame.isLoaded_leaf] at loaded
      rw [Frame.programs_call] at same
      exact .declined (fits.moved also among loaded (same _ (List.mem_cons_self ..)))
        (lists.congr (objects _ among))
  | running among lists _ ih =>
      rw [Frame.isLoaded_single, Bool.and_eq_true] at loaded
      rw [Frame.programs_call] at same
      refine .running (fits.moved also among loaded.1 (same _ (List.mem_cons_self ..)))
        (lists.congr (objects _ among)) (ih loaded.2 fun program nested => same program ?_)
      exact List.mem_cons_of_mem _ (by simpa [Frame.programsIn] using nested)

def Stack.Rests (known : List Function) (classes : ClassTable) (stack : Stack) : Prop :=
  stack.root = {} ∨ ∃ function, Paused known classes (.call function) stack.root

/-- A call on the stack has yielded. One that was refused has not begun. -/
def Stack.isSuspended (stack : Stack) : Bool := stack.isActive && !stack.root.isFresh

namespace Engine

variable {engine : Engine} {known : List Function}

theorem Sound.tells (sound : engine.Sound known) : (engine.past known).Tells engine.code where
  toFits := sound.fits
  distinct := by
    intro function owns
    obtain ⟨program, loaded, _, among, _⟩ := sound.function?_iff.mp owns
    obtain ⟨names, typed, _⟩ := sound.typed program loaded function among
    exact typed.distinct (sound.coherent function (sound.loaded program loaded function among).1)

section

variable {past : Past} {stack : Stack}

theorem entered_pauses (tells : past.Tells engine.code)
    (rests : stack.Rests past.known engine.code.classes) {entry : EntryCall} {function : Function}
    {kept : Option FunctionId} (found : entryCallee engine.code stack entry = .found function kept)
    (gate : Gate) : Pauses past.known engine.code.classes (.call function)
      (Invocation.run engine.code stack.context engine.code.maxCallDepth
        (entry.invocation function stack.program) stack.root ⟨engine.world, gate⟩) := by
  obtain ⟨resolved, chosen, owned⟩ := entryCallee_eq engine.code stack entry
  obtain ⟨owns, rested⟩ := tells.toFits.entering rests (owned tells.consistent) (chosen ▸ found)
  exact run_pauses tells stack.context engine.code.maxCallDepth
    (entry.invocation function stack.program) stack.root ⟨engine.world, gate⟩ owns rested

theorem drive_rests (tells : past.Tells engine.code)
    (rests : stack.Rests past.known engine.code.classes) (gate : Gate) :
    (engine.drive stack gate).stack.Rests past.known engine.code.classes := by
  have driving := drive_driving engine stack gate
  generalize engine.drive stack gate = driven at driving ⊢
  cases driving with
  | refused => exact rests
  | unentered => exact Or.inl rfl
  | @entered entry function kept found =>
      have reached := entered_pauses tells rests found gate
      generalize Invocation.run _ _ _ _ _ _ = ended at reached ⊢
      obtain ⟨progress, after⟩ := ended
      cases progress with
      | suspended root => exact Or.inr ⟨function, reached⟩
      | done | failed => exact Or.inl rfl

theorem Drives.rests {gate : Gate} {driven : Driven} (drives : engine.Drives stack gate driven)
    (tells : past.Tells engine.code) (rests : stack.Rests past.known engine.code.classes) :
    driven.stack.Rests past.known engine.code.classes := by
  cases drives with
  | refused => exact rests
  | started entry => exact drive_rests tells (Or.inl rfl) gate
  | resumed => exact drive_rests tells rests gate

theorem restore_rests {after : Engine} {restored : Stack} (fits : past.Fits engine.code)
    (rests : stack.Rests past.known engine.code.classes)
    (done : engine.restore stack.unbound = .ok (after, restored)) :
    restored.Rests past.known engine.code.classes := by
  obtain ⟨_, _, rfl⟩ | ⟨_, _, _, rfl⟩ := restore_cases done
  · rcases rests with fresh | ⟨function, paused⟩
    · refine Or.inl ?_
      rw [Stack.unbound, fresh, Frame.unbound_leaf]
      rfl
    · exact Or.inr ⟨function, paused.unbound.paused⟩
  · rcases rests with fresh | ⟨function, paused⟩
    · refine Or.inl ?_
      simp [Stack.unbound, fresh, Frame.unbound_leaf, Frame.height, Frame.heights,
        Restoration.restore, Restoration.restoreCall, Frame.call?]
    · exact Or.inr ⟨function, (Restoration.paused_restored fits paused _ _).paused⟩

end

theorem Turn.within {after : Engine} (turn : engine.Turn after) :
    engine.code.classes.Within after.code.classes := by
  cases turn with
  | kept _ _ classes => exact classes
  | compiled name source =>
      have same : (engine.compile name source).2.code.classes = engine.code.classes := by
        unfold Engine.compile
        dsimp only
        split <;> rfl
      rw [same]
      exact fun _ _ found => found
  | unloaded unloaded =>
      unfold Engine.unload at unloaded
      split at unloaded
      · cases unloaded
      · cases unloaded
        exact fun _ _ found => found

end Engine

namespace Host

variable {host : Host} {known : List Function}

structure Resting (host : Host) (known : List Function) : Prop extends host.Formed known where
  sound : host.engine.Sound known
  rests : ∀ stack ∈ host.executions, stack.Rests known host.engine.code.classes

theorem Resting.step (resting : host.Resting known) (operation : Operation) :
    ∃ more, (host.step operation).Resting (known ++ more) := by
  obtain ⟨more, later⟩ := resting.toFormed.step operation
  refine ⟨more, later, step_sound resting.sound operation later.knows, fun stack among => ?_⟩
  have tells := resting.sound.tells
  have rests := @step_stacks host (fun stack => stack.Rests known host.engine.code.classes)
    resting.rests (fun _ _ => Or.inl rfl) operation (fun _ rests drives => drives.rests tells rests)
    (fun _ => Or.inl rfl) (fun rests done => Engine.restore_rests tells.toFits rests done)
    stack among
  refine rests.imp_right fun ⟨function, paused⟩ => ⟨function, paused.mono fun function among => ?_⟩
  exact ⟨List.mem_append_left _ among, Function.object_of_within
    (resting.knows.coherent function among).owned (step_turn host operation).within⟩

theorem Resting.restored {saver : Host} {before : List Function} {stack : Stack}
    (saved : saver.Resting before) (resting : host.Resting known)
    (among : stack ∈ saver.executions) (accepts : host.Accepts saver stack) :
    (host.restoring stack).Resting known := by
  have fits := resting.knows.fits
  have joins := saved.toFormed.moved resting.toFormed among accepts.loaded accepts.same
  have loaded := accepts.loaded
  rw [Frame.isLoaded_congr accepts.same] at loaded
  have rests : stack.Rests known host.engine.code.classes :=
    (saved.rests stack among).imp_right fun ⟨function, paused⟩ =>
      ⟨function, @Paused.moved _ _ _ _ _ _ saved.knows.fits fits
        (fun function among => Function.object_of_within
          (saved.knows.coherent function among).owned accepts.classes)
        _ _ paused loaded accepts.same⟩
  obtain ⟨code, _, knows⟩ := restoring_keeps fits joins accepts.loaded
  refine ⟨restoring_formed resting.toFormed joins accepts.loaded, ?_, fun other held => ?_⟩
  · refine resting.sound.congr (knows resting.knows) (fun _ loaded => ?_) ?_ ?_
    · rw [code] at loaded
      exact loaded
    · rw [code]
      exact .refl _
    · rw [code]
      exact resting.sound.founded
  · rw [code]
    rcases restoring_eq fits joins accepts.loaded with same | taken
    · rw [same] at held
      exact resting.rests other held
    · rw [taken] at held
      rcases List.mem_append.mp held with kept | new
      · exact resting.rests other kept
      · rw [List.mem_singleton.mp new]
        exact rests

theorem Reachable.resting (reachable : host.Reachable) : ∃ known, host.Resting known := by
  induction reachable with
  | fresh => exact ⟨[], .fresh, .fresh, nofun⟩
  | step operation _ ih =>
      obtain ⟨known, resting⟩ := ih
      obtain ⟨more, later⟩ := resting.step operation
      exact ⟨_, later⟩
  | restored _ _ among accepts saver ih =>
      obtain ⟨before, saved⟩ := saver
      obtain ⟨known, resting⟩ := ih
      exact ⟨known, saved.restored resting among accepts⟩
  | dropped place _ ih =>
      obtain ⟨known, formed, sound, rests⟩ := ih
      refine ⟨known, ⟨formed.knows, fun stack among => ?_⟩, sound, fun stack among => ?_⟩
      · exact formed.executions stack (List.mem_of_mem_eraseIdx among)
      · exact rests stack (List.mem_of_mem_eraseIdx among)

end Host

namespace Frame

mutual

def tree : Frame → List Frame
  | ⟨state, vars, temps, children⟩ => ⟨state, vars, temps, children⟩ :: trees children

def trees : List (Nat × Frame) → List Frame
  | [] => []
  | (_, child) :: rest => child.tree ++ trees rest

end

/-- What a frame on the way of a suspended call has beside its state. Where it has no child the way
ends: at a wait, at a call in the queue of a guard, or at one that has not entered its body. -/
def OnPath (frame : Frame) : Prop :=
  match frame.state with
  | .fresh => False
  | .call call => frame.temps = [] ∧
      (call.step = .acquireGuard ∧ frame.children = [] ∨
        call.step = .runBody ∧ (frame.children = [] ∨ ∃ body, frame.children = [(0, body)]))
  | .block next => frame.vars = [] ∧ frame.temps = [] ∧ ∃ child, frame.children = [(next, child)]
  | .wait _ => frame.vars = [] ∧ frame.temps = [] ∧ frame.children = []
  | .eval => frame.vars = [] ∧ ∃ child, frame.children = [(frame.temps.length, child)]

theorem tree_single {state : FrameState} {vars : Variables} {temps : List Value} {slot : Nat}
    {child : Frame} (here : OnPath ⟨state, vars, temps, [(slot, child)]⟩)
    (below : ∀ inner ∈ child.tree, inner.OnPath) :
    ∀ inner ∈ tree ⟨state, vars, temps, [(slot, child)]⟩, inner.OnPath := by
  intro inner among
  rw [tree, trees, trees, List.append_nil] at among
  rcases List.mem_cons.mp among with rfl | nested
  · exact here
  · exact below inner nested

theorem tree_leaf {state : FrameState} {vars : Variables} {temps : List Value}
    (here : OnPath ⟨state, vars, temps, []⟩) :
    ∀ inner ∈ tree ⟨state, vars, temps, []⟩, inner.OnPath := by
  intro inner among
  rw [tree, trees] at among
  rw [List.mem_singleton.mp among]
  exact here

end Frame

theorem Paused.onPath {known : List Function} {classes : ClassTable} {part : Part} {frame : Frame}
    (paused : Paused known classes part frame) : ∀ inner ∈ frame.tree, inner.OnPath := by
  induction paused with
  | operand _ _ ih => exact Frame.tree_single ⟨rfl, _, rfl⟩ ih
  | callee _ _ ih => exact Frame.tree_single ⟨rfl, _, rfl⟩ ih
  | value _ _ ih => exact ih
  | waiting => exact Frame.tree_leaf ⟨rfl, rfl, rfl⟩
  | nested _ ih => exact ih
  | block _ _ ih => exact Frame.tree_single ⟨rfl, rfl, _, rfl⟩ ih
  | queued => exact Frame.tree_leaf ⟨rfl, Or.inl ⟨rfl, rfl⟩⟩
  | declined => exact Frame.tree_leaf ⟨rfl, Or.inr ⟨rfl, Or.inl rfl⟩⟩
  | running _ _ _ ih => exact Frame.tree_single ⟨rfl, Or.inr ⟨rfl, Or.inr ⟨_, rfl⟩⟩⟩ ih

/-- Whatever was done before, the frames of a suspended stack are those of a call of a function that
was compiled, one path down through its code to what is in progress, and nothing else. -/
theorem suspended_stacks_single_path {host : Host} (reachable : host.Reachable) (stack : Stack)
    (among : stack ∈ host.executions) (suspended : stack.isSuspended = true) :
    (∃ known, host.engine.Knows known ∧
      ∃ function ∈ known, Paused known host.engine.code.classes (.call function) stack.root) ∧
    ∀ frame ∈ stack.root.tree, frame.OnPath := by
  obtain ⟨known, resting⟩ := reachable.resting
  rcases resting.rests stack among with fresh | ⟨function, paused⟩
  · simp [Stack.isSuspended, Frame.isFresh, fresh] at suspended
  · exact ⟨⟨known, resting.knows, function, paused.call_held.1, paused⟩, paused.onPath⟩

def idleInside : List Operation :=
  [.register { name := "Base" },
    .register { name := "Robot", parent := some "Base", fields := [⟨"energy", .int, false⟩] },
    .compile "robot" "class Robot \x7b
      int charge(int n) \x7b
        int first = 1;
        \x7b int more = n; energy = more + this.idle(first); \x7d
        return energy;
      \x7d
      int idle(int k) \x7b int late = k; wait(2); return late; \x7d
    \x7d",
    .newInstance "Robot", .newStack ⟨1⟩,
    .callMethod 0 ⟨0, 0⟩ "charge" [.holding "" .int (.int 5)] .unlimited]

def Frame.outline (frame : Frame) : List String × Nat × List Nat :=
  (frame.vars.map Variable.name, frame.temps.length, frame.children.map Prod.fst)

theorem suspended_stacks_single_path_of_idle : ∃ stack ∈ (Host.after idleInside).executions,
    stack.isSuspended = true ∧
    stack.root.tree.map Frame.outline =
      [(["n", "this", "super", "first", "more"], 0, [0]), ([], 0, [1]), ([], 0, [1]), ([], 1, [1]),
        ([], 2, [2]), (["k", "this", "super", "late"], 0, [0]), ([], 0, [1]), ([], 0, [])] ∧
    (∃ known, (Host.after idleInside).engine.Knows known ∧ ∃ function ∈ known,
      Paused known (Host.after idleInside).engine.code.classes (.call function) stack.root) ∧
    ∀ frame ∈ stack.root.tree, frame.OnPath := by
  have shown : ((Host.after idleInside).executions.head?.any fun stack => stack.isSuspended &&
      decide (stack.root.tree.map Frame.outline =
        [(["n", "this", "super", "first", "more"], 0, [0]), ([], 0, [1]), ([], 0, [1]), ([], 1, [1]),
          ([], 2, [2]), (["k", "this", "super", "late"], 0, [0]), ([], 0, [1]), ([], 0, [])])) =
      true := by
    decide +kernel
  cases first : (Host.after idleInside).executions.head? with
  | none =>
      rw [first] at shown
      cases shown
  | some stack =>
      rw [first, Option.any_some, Bool.and_eq_true, decide_eq_true_eq] at shown
      have among := List.mem_of_head? first
      exact ⟨stack, among, shown.1, shown.2, suspended_stacks_single_path
        (Host.after_reachable idleInside) stack among shown.1⟩

end ScriptEngine
