import ScriptEngine.Proofs.GuardCounts
/-! Loading a saved stack into an engine that has the programs of its calls. Its frames are those of
calls in progress there too, and restoring takes each guard again that they hold. -/

namespace ScriptEngine

namespace Frame

@[simp] theorem programs_eval (vars : Variables) (temps : List Value) (slot : Nat)
    (child : Frame) : programs ⟨.eval, vars, temps, [(slot, child)]⟩ = child.programs := by
  simp [programs, programsIn]

@[simp] theorem programs_block (next : Nat) (vars : Variables) (temps : List Value) (slot : Nat)
    (child : Frame) : programs ⟨.block next, vars, temps, [(slot, child)]⟩ = child.programs := by
  simp [programs, programsIn]

@[simp] theorem programs_call (call : Call) (vars : Variables) (temps : List Value)
    (children : List (Nat × Frame)) : programs ⟨.call call, vars, temps, children⟩ =
      call.program :: programsIn children := by
  simp [programs]

theorem isLoaded_single {code : Code} {state : FrameState} {vars : Variables} {temps : List Value}
    {slot : Nat} {child : Frame} :
    isLoaded code ⟨state, vars, temps, [(slot, child)]⟩ =
      (state.isLoaded code && child.isLoaded code) := by
  simp [isLoaded, areLoaded]

theorem isLoaded_leaf {code : Code} {state : FrameState} {vars : Variables} {temps : List Value} :
    isLoaded code ⟨state, vars, temps, []⟩ = state.isLoaded code := by
  simp [isLoaded, areLoaded]

mutual

theorem isLoaded_congr {code other : Code} : ∀ {frame : Frame},
    (∀ program ∈ frame.programs, other.programs.get? program = code.programs.get? program) →
      frame.isLoaded other = frame.isLoaded code
  | ⟨.call call, vars, temps, children⟩, same => by
      rw [programs_call] at same
      have nested := areLoaded_congr fun program among => same program (List.mem_cons_of_mem _ among)
      simp only [isLoaded, FrameState.isLoaded, Programs.function?,
        same call.program (List.mem_cons_self ..), nested]
  | ⟨.fresh, vars, temps, children⟩, same | ⟨.block _, vars, temps, children⟩, same
  | ⟨.wait _, vars, temps, children⟩, same | ⟨.eval, vars, temps, children⟩, same => by
      rw [programs] at same
      simp only [isLoaded, FrameState.isLoaded, areLoaded_congr same]

theorem areLoaded_congr {code other : Code} : ∀ {children : List (Nat × Frame)},
    (∀ program ∈ programsIn children,
      other.programs.get? program = code.programs.get? program) →
      areLoaded other children = areLoaded code children
  | [], _ => rfl
  | (slot, child) :: rest, same => by
      rw [programsIn] at same
      rw [areLoaded, areLoaded,
        isLoaded_congr fun program among => same program (List.mem_append_left _ among),
        areLoaded_congr fun program among => same program (List.mem_append_right _ among)]

end

theorem Lost.not_isLoaded {past : Past} {code : Code} {frame : Frame} (lost : frame.Lost past)
    (fits : past.Fits code) : frame.isLoaded code = false := by
  obtain ⟨call, held, gone⟩ := lost
  obtain ⟨state, vars, temps, children⟩ := frame
  dsimp only at held
  subst held
  simp [isLoaded, FrameState.isLoaded, fits.gone _ _ gone]

end Frame

theorem Past.Fits.loaded {past : Past} {code : Code} (fits : past.Fits code) {function : Function}
    (among : function ∈ past.known) {step : CallStep}
    (loaded : (FrameState.call { function.newCall with step }).isLoaded code = true) :
    code.programs.function? function.program function.id = some function := by
  obtain ⟨found, known⟩ := Option.isSome_iff_exists.mp loaded
  have known : code.programs.function? function.program function.id = some found := known
  rw [fits.same function among found known] at known
  exact known

theorem Past.Fits.moved {past more : Past} {code other : Code} (fits : past.Fits code)
    (also : more.Fits other) {function : Function} (among : function ∈ past.known)
    {step : CallStep}
    (loaded : (FrameState.call { function.newCall with step }).isLoaded code = true)
    (same : other.programs.get? function.program = code.programs.get? function.program) :
    function ∈ more.known := by
  refine also.owned function ?_
  rw [Code.Owns, Programs.function?, same]
  exact fits.loaded among loaded

theorem InProgress.moved {past more : Past} {code other : Code} (fits : past.Fits code)
    (also : more.Fits other) {part : Part} {frame : Frame} (progress : InProgress past part frame)
    (loaded : frame.isLoaded code = true)
    (same : ∀ program ∈ frame.programs, other.programs.get? program = code.programs.get? program) :
    InProgress more part frame := by
  induction progress with
  | operand place _ ih =>
      rw [Frame.isLoaded_single, Bool.and_eq_true] at loaded
      rw [Frame.programs_eval] at same
      exact .operand place (ih loaded.2 same)
  | callee complete enters _ ih =>
      rw [Frame.isLoaded_single, Bool.and_eq_true] at loaded
      rw [Frame.programs_eval] at same
      exact .callee complete enters (ih loaded.2 same)
  | lost complete lost =>
      rw [Frame.isLoaded_single, lost.not_isLoaded fits, Bool.and_false] at loaded
      cases loaded
  | value computes _ ih => exact .value computes (ih loaded same)
  | waiting => exact .waiting
  | nested _ ih => exact .nested (ih loaded same)
  | block place _ ih =>
      rw [Frame.isLoaded_single, Bool.and_eq_true] at loaded
      rw [Frame.programs_block] at same
      exact .block place (ih loaded.2 same)
  | queued among binds locks =>
      rw [Frame.isLoaded_leaf] at loaded
      rw [Frame.programs_call] at same
      exact .queued (fits.moved also among loaded (same _ (List.mem_cons_self ..))) binds locks
  | declined among binds =>
      rw [Frame.isLoaded_leaf] at loaded
      rw [Frame.programs_call] at same
      exact .declined (fits.moved also among loaded (same _ (List.mem_cons_self ..))) binds
  | running among binds _ ih =>
      rw [Frame.isLoaded_single, Bool.and_eq_true] at loaded
      rw [Frame.programs_call] at same
      refine .running (fits.moved also among loaded.1 (same _ (List.mem_cons_self ..))) binds
        (ih loaded.2 fun program nested => same program (List.mem_cons_of_mem _ ?_))
      simpa [Frame.programsIn] using nested

theorem CallFrame.moved {past more : Past} {code other : Code} (fits : past.Fits code)
    (also : more.Fits other) {frame : Frame} (shape : CallFrame past frame)
    (loaded : frame.isLoaded other = true)
    (same : ∀ program ∈ frame.programs, other.programs.get? program = code.programs.get? program) :
    CallFrame more frame := by
  rw [Frame.isLoaded_congr same] at loaded
  cases shape with
  | fresh => exact .fresh
  | going progress => exact .going (progress.moved fits also loaded same)
  | lost lost =>
      rw [lost.not_isLoaded fits] at loaded
      cases loaded

namespace Restoration

variable {past : Past} {code : Code} {context : ContextId}

def retake (context : ContextId) (held : List String) (guards : GuardTable) : GuardTable :=
  held.foldl (fun guards owner => (guards.tryLock owner context).2) guards

def Retakes (context : ContextId) (frame : Frame) (restore : Restore) : Prop :=
  ∀ guards, (restore frame.unbound guards).2 = retake context frame.heldGuards guards

theorem Retakes.nested {state : FrameState} {temps : List Value} {slot : Nat} {child : Frame}
    {restore nested : Restore}
    (bare : Frame.heldGuards ⟨state, [], temps, [(slot, child)]⟩ = child.heldGuards)
    (descends : ∀ child, restore ⟨state, [], temps, [(slot, child)]⟩ =
      onChild slot nested ⟨state, [], temps, [(slot, child)]⟩)
    (retakes : Retakes context child nested) :
    Retakes context ⟨state, [], temps, [(slot, child)]⟩ restore := by
  intro guards
  rw [Frame.unbound_single, List.map_nil, descends, onChild_single, bare]
  exact retakes guards

theorem retakeGuard_eq {function : Function} {call : Call} (owned : call.owner = function.owner)
    (guards : GuardTable) :
    retakeGuard context function call guards =
      retake context call.heldGuard?.toList guards := by
  unfold retakeGuard Call.heldGuard?
  rw [owned]
  cases function.owner <;> cases call.holdsGuard <;> rfl

theorem leafCall_retakes {function : Function} {step : CallStep} {vars : Variables}
    (fits : past.Fits code) (among : function ∈ past.known) (binds : function.Binds vars)
    (loaded : (FrameState.call { function.newCall with step }).isLoaded code = true)
    (levels : Nat) :
    Retakes context ⟨.call { function.newCall with step }, vars, [], []⟩
      (restoreCall code context (levels + 1)) := by
  intro guards
  rw [Frame.unbound_leaf, restoreCall_found binds (fits.loaded among loaded), retakeGuard_eq rfl,
    Frame.heldGuards_call, Frame.heldGuardsIn_nil, List.append_nil]
  split <;> rfl

theorem inProgress_retakes (fits : past.Fits code) {part : Part} {frame : Frame}
    (progress : InProgress past part frame) (loaded : frame.isLoaded code = true) :
    ∀ levels, frame.height ≤ levels →
      Retakes context frame (restorePart code context levels part) := by
  induction progress with
  | operand placed _ ih =>
      intro levels high
      rw [Frame.height_single] at high
      rw [Frame.isLoaded_single, Bool.and_eq_true] at loaded
      exact (ih loaded.2 levels (Nat.le_of_succ_le high)).nested (by simp)
        (fun child => restoreExpr_operand _ placed)
  | @callee type span site operands _ _ _ complete enters _ ih =>
      intro levels high
      rw [Frame.height_single] at high
      rw [Frame.isLoaded_single, Bool.and_eq_true] at loaded
      exact (ih loaded.2 levels (Nat.le_of_succ_le high)).nested (by simp)
        (fun child => @restoreExpr_callee _ type span site operands _ _ complete)
  | lost complete lost =>
      rw [Frame.isLoaded_single, lost.not_isLoaded fits, Bool.and_false] at loaded
      cases loaded
  | @value stmt expr frame computes progress ih =>
      intro levels high
      rw [restorePart_value computes]
      exact ih loaded levels high
  | waiting =>
      intro levels high guards
      simp only [restorePart, restoreStmt, Frame.unbound_leaf]
      rw [restoreExpr_of_wait _ _ rfl]
      simp [retake]
  | nested progress ih =>
      intro levels high guards
      have inside := ih loaded levels high guards
      simp only [restorePart, restoreStmt] at inside ⊢
      exact inside
  | block placed _ ih =>
      intro levels high
      rw [Frame.height_single] at high
      rw [Frame.isLoaded_single, Bool.and_eq_true] at loaded
      exact (ih loaded.2 levels (Nat.le_of_succ_le high)).nested (by simp)
        (fun child => restoreStmts_at _ rfl _ [] (Nat.zero_le _) placed)
  | queued among binds | declined among binds =>
      intro levels high
      rw [Frame.isLoaded_leaf] at loaded
      obtain ⟨levels, rfl⟩ := Nat.exists_eq_succ_of_ne_zero (Nat.ne_of_gt high)
      exact leafCall_retakes fits among binds loaded levels
  | @running function vars body among binds progress ih =>
      intro levels high guards
      rw [Frame.height_single] at high
      rw [Frame.isLoaded_single, Bool.and_eq_true] at loaded
      obtain ⟨levels, rfl⟩ := Nat.exists_eq_add_of_lt high
      have inside := ih loaded.2 (body.height + levels) (Nat.le_add_right ..)
      change (restoreCall code context _ _ guards).2 = _
      rw [Frame.unbound_single, restoreCall_found binds (fits.loaded among loaded.1), if_pos rfl,
        onChild_single, retakeGuard_eq rfl, Frame.heldGuards_call, Frame.heldGuardsIn_single]
      unfold retake
      rw [List.foldl_append]
      exact inside _

theorem restore_retakes (fits : past.Fits code) {frame : Frame} (shape : CallFrame past frame)
    (loaded : frame.isLoaded code = true) (guards : GuardTable) :
    restore code context frame.unbound guards = (frame, retake context frame.heldGuards guards) := by
  have same := (@callFrame_rebuilds _ _ context fits _ shape guards).2
  refine Prod.ext (same.trans (Frame.rebuilt_eq loaded)) ?_
  unfold restore
  rw [Frame.height_unbound]
  cases shape with
  | fresh => simp [Frame.height, Frame.heights, restoreCall, Frame.call?, retake]
  | going progress => exact inProgress_retakes fits progress loaded _ (Nat.le_refl _) guards
  | lost lost =>
      rw [lost.not_isLoaded fits] at loaded
      cases loaded

end Restoration

def Engine.retaking (engine : Engine) (stack : Stack) : Engine :=
  { engine with
    ids := if stack.isActive then engine.ids.reserveContext stack.context else engine.ids
    world := { engine.world with
      guards := Restoration.retake stack.context stack.root.heldGuards engine.world.guards } }

/-- A stack whose calls are all loaded is restored as it was saved, and takes the guards that it held.
-/
theorem Engine.restore_whole {engine after : Engine} {past : Past} {stack restored : Stack}
    (fits : past.Fits engine.code) (formed : stack.Formed past)
    (loaded : stack.root.isLoaded engine.code = true)
    (done : engine.restore stack.unbound = .ok (after, restored)) :
    restored = stack ∧ after = engine.retaking stack := by
  have retakes := @Restoration.restore_retakes _ _ stack.context fits _ formed.shape loaded
    engine.world.guards
  obtain ⟨inactive, rfl, rfl⟩ | ⟨active, _, rfl, rfl⟩ := restore_cases done
  · have idle : stack.entry = none := by
      simpa [Stack.isActive, Stack.unbound] using inactive
    have bare : stack.unbound = stack := by
      rw [Stack.unbound, formed.idle idle, Frame.unbound_leaf]
      cases stack
      cases formed.idle idle
      rfl
    refine ⟨bare, ?_⟩
    rw [retaking, formed.idle idle, Frame.heldGuards_fresh, if_neg (by simp [Stack.isActive, idle])]
    rfl
  · have active : stack.isActive = true := active
    dsimp only [Stack.unbound]
    rw [retakes, retaking, if_pos active]
    exact ⟨rfl, rfl⟩

namespace Host

variable {host : Host} {known : List Function} {stack : Stack}

theorem Formed.moved {saver : Host} {before : List Function} (saved : saver.Formed before)
    (formed : host.Formed known) (among : stack ∈ saver.executions)
    (loaded : stack.root.isLoaded host.engine.code = true)
    (same : ∀ program ∈ stack.root.programs,
      host.engine.code.programs.get? program = saver.engine.code.programs.get? program) :
    stack.Formed (host.engine.past known) := by
  obtain ⟨shape, idle⟩ := saved.executions stack among
  exact ⟨shape.moved saved.knows.fits formed.knows.fits loaded same, idle⟩

theorem restoring_eq (fits : (host.engine.past known).Fits host.engine.code)
    (joins : stack.Formed (host.engine.past known))
    (loaded : stack.root.isLoaded host.engine.code = true) : host.restoring stack = host ∨
      host.restoring stack = ⟨host.engine.retaking stack, host.executions ++ [stack]⟩ := by
  unfold restoring
  split
  · rename_i done
    obtain ⟨rfl, rfl⟩ := Engine.restore_whole fits joins loaded done
    exact Or.inr rfl
  · exact Or.inl rfl

theorem restoring_keeps (fits : (host.engine.past known).Fits host.engine.code)
    (joins : stack.Formed (host.engine.past known))
    (loaded : stack.root.isLoaded host.engine.code = true) :
    (host.restoring stack).engine.code = host.engine.code ∧
      (host.restoring stack).engine.past known = host.engine.past known ∧
      (host.engine.Knows known → (host.restoring stack).engine.Knows known) := by
  rcases restoring_eq fits joins loaded with same | taken
  · rw [same]
    exact ⟨rfl, rfl, id⟩
  · rw [taken]
    have functions : (host.engine.retaking stack).ids.lastFunction =
        host.engine.ids.lastFunction := by
      unfold Engine.retaking
      dsimp only
      split <;> rfl
    have programs : (host.engine.retaking stack).ids.lastProgram = host.engine.ids.lastProgram := by
      unfold Engine.retaking
      dsimp only
      split <;> rfl
    refine ⟨rfl, ?_, fun knows => knows.congr rfl rfl (fun _ _ found => found)
      (Nat.le_of_eq functions.symm) (Nat.le_of_eq programs.symm)⟩
    unfold Engine.past
    rw [functions]
    rfl

theorem restoring_formed (formed : host.Formed known) (joins : stack.Formed (host.engine.past known))
    (loaded : stack.root.isLoaded host.engine.code = true) :
    (host.restoring stack).Formed known := by
  obtain ⟨_, past, knows⟩ := restoring_keeps formed.knows.fits joins loaded
  refine ⟨knows formed.knows, fun other among => ?_⟩
  rw [past]
  rcases restoring_eq formed.knows.fits joins loaded with same | taken
  · rw [same] at among
    exact formed.executions other among
  · rw [taken] at among
    rcases List.mem_append.mp among with kept | new
    · exact formed.executions other kept
    · rw [List.mem_singleton.mp new]
      exact joins

end Host

end ScriptEngine
