import ScriptEngine.Proofs.Resolution
import ScriptEngine.Proofs.Shape
/-! What a running call keeps up. From a frame tree of the shape of a suspended call it comes to one
again, and a tally of the guards its frames hold and wait for is carried along: each acquisition
adds the class of the frame that made it, each release takes it off. -/

namespace ScriptEngine

/-- A property of the guards that the frames of a context hold and wait for, and of the guards table,
that every lock and unlock of the context keeps. A context waits for one guard at most. -/
structure Tally (context : ContextId) where
  holds : (held awaited : List String) → GuardTable → Prop
  taken : ∀ {held awaited : List String} {className : String} {table after : GuardTable},
    holds held awaited table → awaited ⊆ [className] →
      table.tryLock className context = (true, after) → holds (held ++ [className]) [] after
  refused : ∀ {held awaited : List String} {className : String} {table after : GuardTable},
    holds held awaited table → awaited ⊆ [className] →
      table.tryLock className context = (false, after) → holds held [className] after
  released : ∀ {held : List String} {className : String} {table : GuardTable},
    holds (held ++ [className]) [] table → holds held [] (table.unlock className context).2
  /-- Whether guards may be held that are not counted. -/
  lenient : Prop
  dropped : lenient → ∀ {held more awaited : List String} {table : GuardTable},
    holds (held ++ more) awaited table → holds held [] table

section

variable {context : ContextId} (tally : Tally context) (past : Past)
  (outer : List String) (code : Code) (depth : Nat)

/-- The guards of a frame and of the calls around it are counted, and unless some need not be, all
calls of the frame can go on. -/
structure Tally.Covers (frame : Frame) (world : World) : Prop where
  counted : tally.holds (outer ++ frame.heldGuards) frame.awaited world.guards
  continues : tally.lenient ∨ frame.continues code world.heap depth = true

def Kept {α : Type} (part : Part) : Progress α × Machine → Prop
  | (.suspended left, after) => InProgress past part left ∧
      tally.holds (outer ++ left.heldGuards) left.awaited after.world.guards
  | (.done _, after) => tally.holds outer [] after.world.guards
  | (.failed _, after) => tally.holds outer [] after.world.guards

inductive Computing (past : Past) (expr : Expr) (slot : Nat) : Frame → Prop
  | reached {temps : List Value} : temps.length = slot →
      Computing past expr slot { state := .eval, temps }
  | ahead {frame : Frame} : InProgress past (.expr expr) frame → slot ≤ frame.temps.length →
      Computing past expr slot frame

def KeptOperand (expr : Expr) (slot : Nat) : Progress Frame × Machine → Prop
  | (.suspended left, after) => InProgress past (.expr expr) left ∧
      tally.holds (outer ++ left.heldGuards) left.awaited after.world.guards
  | (.done frame, after) =>
      Computing past expr slot frame ∧ tally.Covers outer code depth frame after.world
  | (.failed _, after) => tally.holds outer [] after.world.guards

end

section

variable {context : ContextId} {tally : Tally context} {past : Past}
  {outer : List String} {code : Code} {depth : Nat}

namespace Tally.Covers

variable {frame : Frame} {world : World}

theorem of_leaf (kept : tally.holds outer [] world.guards) (plain : frame.call? = none)
    (leaf : frame.children = []) : tally.Covers outer code depth frame world := by
  obtain ⟨held, awaited, continues⟩ := Frame.nested_of_plain plain
  exact ⟨by simpa [held, awaited, leaf] using kept, Or.inr (by simp [continues, leaf])⟩

theorem leaf (covers : tally.Covers outer code depth frame world) (plain : frame.call? = none)
    (leaf : frame.children = []) : tally.holds outer [] world.guards := by
  obtain ⟨held, awaited, _⟩ := Frame.nested_of_plain plain
  simpa [held, awaited, leaf] using covers.counted

theorem child (covers : tally.Covers outer code depth frame world) {slot : Nat}
    (plain : frame.call? = none) (single : frame.Single slot) :
    tally.Covers outer code depth (frame.child slot) world := by
  obtain ⟨held, awaited, continues⟩ := Frame.nested_of_plain plain
  refine ⟨?_, covers.continues.imp_right fun goes => ?_⟩
  · rw [← single.guards, ← single.awaited, ← held, ← awaited]
    exact covers.counted
  · rw [continues] at goes
    exact (single.continues goes).2

theorem orphan (covers : tally.Covers outer code depth frame world) {slot : Nat}
    (plain : frame.call? = none) (single : frame.Single slot) :
    tally.lenient ∨ (frame.child slot).isOrphan world.heap frame.temps = false := by
  refine covers.continues.imp_right fun goes => ?_
  rw [(Frame.nested_of_plain plain).2.2] at goes
  exact (single.continues goes).1

end Tally.Covers

theorem Frame.Single.kept {frame child : Frame} {slot : Nat} {table : GuardTable}
    (single : frame.Single slot) (plain : frame.call? = none)
    (kept : tally.holds (outer ++ child.heldGuards) child.awaited table) :
    tally.holds (outer ++ (frame.withChild slot child).heldGuards)
      (frame.withChild slot child).awaited table := by
  have still : (frame.withChild slot child).call? = none := plain
  obtain ⟨held, awaited, _⟩ := Frame.nested_of_plain still
  rw [held, awaited, single.withChild_children, Frame.heldGuardsIn_single, Frame.awaitedIn_single]
  exact kept

theorem Started.computing {expr : Expr} {frame : Frame} (started : Started past (.expr expr) frame) :
    Computing past expr 0 frame.startEval ∧
      ∀ {world}, tally.Covers outer code depth frame world →
        tally.Covers outer code depth frame.startEval world := by
  rcases started with rfl | progress
  · exact ⟨.reached rfl, fun covers => .of_leaf (covers.leaf rfl rfl) rfl rfl⟩
  · have evaluating : frame.state = .eval := by
      cases progress <;> rfl
    rw [Frame.startEval_of_eval evaluating]
    exact ⟨.ahead progress (Nat.zero_le _), id⟩

theorem Computing.due {expr operand : Expr} {slot : Nat} {frame : Frame}
    (computing : Computing past expr slot frame) (placed : expr.operands[slot]? = some operand)
    (due : ¬ slot < frame.temps.length) :
    frame.state = .eval ∧ frame.vars = [] ∧ frame.temps.length = slot ∧ frame.Single slot ∧
      Started past (.expr operand) (frame.child slot) := by
  cases computing with
  | reached counted =>
      exact ⟨rfl, rfl, counted, Frame.single_of_nil rfl, Or.inl (Frame.child_of_nil rfl)⟩
  | ahead progress bound =>
      have counted : frame.temps.length = slot := Nat.le_antisymm (Nat.le_of_not_lt due) bound
      cases progress with
      | operand found progress =>
          rw [← counted] at placed ⊢
          rw [found] at placed
          cases placed
          refine ⟨rfl, rfl, rfl, Frame.single_of_child rfl, Or.inr ?_⟩
          rw [Frame.child_of_child rfl]
          exact progress
      | callee complete | lost complete =>
          rw [← counted] at placed
          have outside := List.getElem?_eq_none_iff.mpr (Nat.le_of_eq complete.symm)
          rw [Expr.operands, outside] at placed
          cases placed

theorem Computing.leaf {expr : Expr} {slot : Nat} {frame : Frame}
    (computing : Computing past expr slot frame) (whole : expr.operands.length ≤ slot)
    (plain : ∀ type span site operands, expr ≠ .call type span site operands) :
    frame.call? = none ∧ frame.children = [] := by
  cases computing with
  | reached => exact ⟨rfl, rfl⟩
  | ahead progress bound =>
      cases progress with
      | operand found =>
          have inside := (List.getElem?_eq_some_iff.mp found).1
          exact absurd inside (Nat.not_lt.mpr (Nat.le_trans whole bound))
      | callee | lost => exact absurd rfl (plain _ _ _ _)

theorem operand_kept {expr operand : Expr} {slot : Nat}
    (placed : expr.operands[slot]? = some operand)
    {evaluate : Frame → Machine → Progress Value × Machine}
    (evaluated : ∀ frame machine, Started past (.expr operand) frame →
      tally.Covers outer code depth frame machine.world →
        Kept tally past outer (.expr operand) (evaluate frame machine))
    {frame : Frame} {machine : Machine} (computing : Computing past expr slot frame)
    (covers : tally.Covers outer code depth frame machine.world) :
    KeptOperand tally past outer code depth expr (slot + 1)
      (Evaluation.operand slot evaluate frame machine) := by
  unfold Evaluation.operand
  by_cases passed : slot < frame.temps.length
  · rw [if_pos passed]
    refine ⟨?_, covers⟩
    cases computing with
    | reached counted => exact absurd passed (by simp [counted])
    | ahead progress => exact .ahead progress passed
  · rw [if_neg passed]
    obtain ⟨evaluating, bare, counted, single, started⟩ := computing.due placed passed
    obtain ⟨state, vars, temps, children⟩ := frame
    dsimp only at evaluating bare counted
    subst evaluating bare
    have reached := evaluated _ machine started (covers.child rfl single)
    generalize evaluate (Frame.child ⟨.eval, [], temps, children⟩ slot) machine = ended at reached ⊢
    obtain ⟨progress, after⟩ := ended
    cases progress with
    | failed error => exact reached
    | done value =>
        simp only [single.removed]
        have kept : tally.holds outer [] after.world.guards := reached
        exact ⟨.reached (by simp [counted]), .of_leaf kept rfl rfl⟩
    | suspended child =>
        obtain ⟨progress, kept⟩ := reached
        refine ⟨?_, single.kept rfl kept⟩
        subst counted
        rw [single.placed]
        exact .operand placed progress

inductive Entering (past : Past) (site : CallSite) (temps : List Value) : Frame → Prop
  | fresh : Entering past site temps {}
  | going {function : Function} {frame : Frame} : site.Enters function temps →
      InProgress past (.call function) frame → Entering past site temps frame
  | lost {frame : Frame} : frame.Lost past → Entering past site temps frame

theorem Entering.callFrame {site : CallSite} {temps : List Value} {frame : Frame}
    (entering : Entering past site temps frame) : CallFrame past frame := by
  cases entering with
  | fresh => exact .fresh
  | going _ progress => exact .going progress
  | lost lost => exact .lost lost

theorem Computing.complete {type : DataType} {span : Span} {site : CallSite}
    {operands : List Expr} {frame : Frame}
    (computing : Computing past (.call type span site operands) operands.length frame) :
    frame.state = .eval ∧ frame.vars = [] ∧ frame.temps.length = operands.length ∧
      frame.Single operands.length ∧
        Entering past site frame.temps (frame.child operands.length) := by
  cases computing with
  | reached counted =>
      refine ⟨rfl, rfl, counted, Frame.single_of_nil rfl, ?_⟩
      rw [Frame.child_of_nil rfl]
      exact .fresh
  | ahead progress bound =>
      cases progress with
      | operand found =>
          have inside := (List.getElem?_eq_some_iff.mp found).1
          exact absurd inside (Nat.not_lt.mpr bound)
      | callee complete enters progress =>
          rw [← complete]
          refine ⟨rfl, rfl, rfl, Frame.single_of_child rfl, ?_⟩
          rw [Frame.child_of_child rfl]
          exact .going enters progress
      | lost complete lost =>
          rw [← complete]
          refine ⟨rfl, rfl, rfl, Frame.single_of_child rfl, ?_⟩
          rw [Frame.child_of_child rfl]
          exact .lost lost

end

/-- What the code of an engine has to be like for the calls that run on it. -/
structure Past.Fits (past : Past) (code : Code) : Prop where
  consistent : code.Consistent
  owned : ∀ function, code.Owns function → function ∈ past.known
  same : ∀ function ∈ past.known, ∀ found,
    code.programs.function? function.program function.id = some found → found = function
  gone : ∀ program function, past.gone program function →
    code.programs.function? program function = none
  settled : ∀ function ∈ past.known,
    code.programs.function? function.program function.id = none →
      past.gone function.program function.id
  coherent : ∀ function ∈ past.known, function.Coherent code.classes

theorem Past.Fits.resumed {past : Past} {code : Code} (fits : past.Fits code) {child : Frame}
    {suspended function : Function} (progress : InProgress past (.call suspended) child)
    {kept found? : Option FunctionId} {resolved : Except CompileCause Function × Option FunctionId}
    (chosen : Evaluation.callee code child kept resolved = .found function found?) :
    function = suspended := by
  obtain ⟨among, step, held⟩ := progress.call_held
  simp only [Evaluation.callee, Frame.call?, held] at chosen
  split at chosen
  · rename_i loaded
    cases chosen
    exact fits.same suspended among function loaded
  · cases chosen

theorem Past.Fits.started {past : Past} {code : Code} (fits : past.Fits code) {child : Frame}
    (shape : CallFrame past child)
    {kept found? : Option FunctionId}
    {resolved : Except CompileCause Function × Option FunctionId} {function : Function}
    (owned : ∀ function kept, resolved = (.ok function, kept) → code.Owns function)
    (chosen : Evaluation.callee code child kept resolved = .found function found?) :
    function ∈ past.known ∧ Started past (.call function) child := by
  cases shape with
  | fresh =>
      obtain ⟨result, id?⟩ := resolved
      cases result with
      | error cause => cases chosen
      | ok resolved =>
          cases chosen
          exact ⟨fits.owned _ (owned _ _ rfl), Or.inl rfl⟩
  | going progress =>
      obtain rfl := fits.resumed progress chosen
      exact ⟨progress.call_held.1, Or.inr progress⟩
  | lost lost =>
      obtain ⟨call, held, gone⟩ := lost
      have missing := fits.gone _ _ gone
      simp only [Evaluation.callee, Frame.call?, held, missing] at chosen
      cases chosen

theorem Entering.enters {past : Past} {code : Code} (fits : past.Fits code) {site : CallSite}
    {temps : List Value} {child : Frame} (entering : Entering past site temps child)
    {kept found? : Option FunctionId}
    {resolved : Except CompileCause Function × Option FunctionId} {function : Function}
    (owned : ∀ function kept, resolved = (.ok function, kept) → site.Enters function temps)
    (chosen : Evaluation.callee code child kept resolved = .found function found?) :
    site.Enters function temps := by
  cases entering with
  | fresh =>
      obtain ⟨result, id?⟩ := resolved
      cases result with
      | error cause => cases chosen
      | ok resolved =>
          cases chosen
          exact owned _ _ rfl
  | going enters progress =>
      obtain rfl := fits.resumed progress chosen
      exact enters
  | lost lost =>
      obtain ⟨call, held, gone⟩ := lost
      have missing := fits.gone _ _ gone
      simp only [Evaluation.callee, Frame.call?, held, missing] at chosen
      cases chosen

theorem Past.Fits.found {past : Past} {code : Code} (fits : past.Fits code) {function : Function}
    {frame : Frame} (progress : InProgress past (.call function) frame) {heap : Heap} {depth : Nat}
    (goes : frame.continues code heap depth = true) :
    0 < depth ∧ (∃ step, frame.call? = some { function.newCall with step }) ∧
      code.programs.function? function.program function.id = some function := by
  obtain ⟨among, step, held⟩ := progress.call_held
  obtain ⟨room, loaded⟩ := Frame.loaded_of_continues goes held
  obtain ⟨found, known⟩ := Option.isSome_iff_exists.mp loaded
  refine ⟨room, ⟨step, by rw [Frame.call?, held]⟩, ?_⟩
  rw [fits.same function among found known] at known
  exact known

theorem Past.Fits.callee_found {past : Past} {code : Code} (fits : past.Fits code)
    {function : Function} {frame : Frame} (progress : InProgress past (.call function) frame)
    {heap : Heap} {depth : Nat} (goes : frame.continues code heap depth = true)
    (kept : Option FunctionId) (resolved : Except CompileCause Function × Option FunctionId) :
    Evaluation.callee code frame kept resolved = .found function kept := by
  obtain ⟨_, ⟨step, held⟩, loaded⟩ := fits.found progress goes
  have found : code.programs.function? (Call.program { function.newCall with step })
      (Call.function { function.newCall with step }) = some function := loaded
  simp only [Evaluation.callee, held, found]

theorem Past.Fits.lost {past : Past} {code : Code} (fits : past.Fits code) {frame : Frame}
    (lost : frame.Lost past) {heap : Heap} {depth : Nat} :
    frame.continues code heap depth = false := by
  obtain ⟨call, held, gone⟩ := lost
  refine Bool.eq_false_iff.mpr fun goes => ?_
  have loaded := (Frame.loaded_of_continues goes held).2
  rw [fits.gone _ _ gone] at loaded
  cases loaded

structure Keeping (activation : Activation) (tally : Tally activation.context) (past : Past)
    (depth : Nat) : Prop extends past.Fits activation.code where
  call : ∀ (outer : List String) (invocation : Invocation) (frame : Frame) (machine : Machine),
    invocation.function ∈ past.known → Started past (.call invocation.function) frame →
      tally.Covers outer activation.code depth frame machine.world →
        Kept tally past outer (.call invocation.function)
          (activation.call invocation frame machine)

section

variable {activation : Activation} {tally : Tally activation.context} {past : Past}
  {outer : List String} {depth : Nat}

theorem Entering.unentered (keeping : Keeping activation tally past depth) {site : CallSite}
    {temps : List Value} {child : Frame} {world : World}
    (entering : Entering past site temps child)
    (covers : tally.Covers outer activation.code depth child world)
    (stays : ∀ function, site.Enters function temps → InProgress past (.call function) child →
      child.continues activation.code world.heap depth = true → tally.lenient) :
    tally.holds outer [] world.guards := by
  cases entering with
  | fresh => exact covers.leaf rfl rfl
  | going enters progress =>
      rcases covers.continues with lenient | goes
      · exact tally.dropped lenient covers.counted
      · exact tally.dropped (stays _ enters progress goes) covers.counted
  | lost lost =>
      rcases covers.continues with lenient | goes
      · exact tally.dropped lenient covers.counted
      · rw [keeping.lost lost] at goes
        cases goes

theorem enterSite_kept (keeping : Keeping activation tally past depth) {type : DataType}
    {span : Span} {site : CallSite} {operands : List Expr} {frame : Frame} {machine : Machine}
    (computing : Computing past (.call type span site operands) operands.length frame)
    (covers : tally.Covers outer activation.code depth frame machine.world)
    {resolved : Except CompileCause Function × Option FunctionId}
    (owned : ∀ function kept, resolved = (.ok function, kept) →
      activation.code.Owns function ∧ site.Enters function frame.temps)
    (receiver : Option Handle) (args : Variables) :
    Kept tally past outer (.expr (.call type span site operands))
      (Evaluation.enterSite activation site operands.length
        (Evaluation.callee activation.code (frame.child operands.length) none resolved) receiver
        args frame machine) := by
  obtain ⟨evaluating, bare, counted, single, child⟩ := computing.complete
  obtain ⟨state, vars, temps, children⟩ := frame
  dsimp only at evaluating bare counted child owned
  subst evaluating bare
  have inside := covers.child rfl single
  cases chosen : Evaluation.callee activation.code
      (Frame.child ⟨.eval, [], temps, children⟩ operands.length) none resolved with
  | gone | notFound =>
      refine child.unentered keeping inside fun function _ progress goes => ?_
      rw [keeping.callee_found progress goes] at chosen
      cases chosen
  | found function kept =>
      have started := keeping.toFits.started child.callFrame
        (fun function kept resolved => (owned function kept resolved).1) chosen
      simp only [Evaluation.enterSite]
      have reached := keeping.call outer
        ⟨function, receiver, args, some site.span, activation.program⟩ _
        { machine with
          world := machine.world.keepCallee ⟨activation.program, site.offset⟩ kept }
        started.1 started.2 (by
          cases kept <;> exact ⟨inside.counted, inside.continues⟩)
      generalize activation.call _ _ _ = ended at reached ⊢
      obtain ⟨progress, after⟩ := ended
      cases progress with
      | done value => exact reached
      | failed error => exact reached
      | suspended left =>
          obtain ⟨progress, kept⟩ := reached
          refine ⟨?_, single.kept rfl kept⟩
          have enters := Entering.enters keeping.toFits child
            (fun function kept resolved => (owned function kept resolved).2) chosen
          rw [single.placed, ← counted]
          exact .callee counted enters progress

theorem callSite_kept (keeping : Keeping activation tally past depth) {type : DataType}
    {span : Span} {site : CallSite} {operands : List Expr} {frame : Frame} {machine : Machine}
    (computing : Computing past (.call type span site operands) operands.length frame)
    (covers : tally.Covers outer activation.code depth frame machine.world) :
    Kept tally past outer (.expr (.call type span site operands))
      (Evaluation.callSite activation site (operands.map Expr.type) frame machine) := by
  unfold Evaluation.callSite
  simp only [List.length_map]
  by_cases receives : site.hasReceiver = true
  · rw [if_pos receives]
    cases given : Evaluation.receiver machine.world.heap site frame.temps with
    | error error =>
        obtain ⟨evaluating, _, _, single, child⟩ := computing.complete
        have plain : frame.call? = none := by rw [Frame.call?, evaluating]
        refine child.unentered keeping (covers.child plain single)
          fun function enters progress goes => ?_
        refine (covers.orphan plain single).resolve_right fun live => ?_
        obtain ⟨_, ⟨step, held⟩, _⟩ := keeping.found progress goes
        obtain ⟨enclosed, handle, head⟩ := enters receives
        have dispatched := (keeping.coherent _ progress.call_held.1).isDispatched enclosed
        have present : (machine.world.heap.get? handle).isNone = false := by
          simpa [Frame.isOrphan, held, head, Function.newCall, dispatched] using live
        simp only [Evaluation.receiver, head] at given
        split at given
        · cases given
        · cases live : machine.world.heap.get? handle with
          | none => simp [live] at present
          | some object => simp [live] at given
    | ok found =>
        refine enterSite_kept keeping computing covers (fun function kept resolved => ?_) ..
        refine ⟨keeping.consistent.resolveMethod resolved, fun _ => ?_⟩
        refine ⟨Code.classBlock_of_resolveMethod resolved, ?_⟩
        unfold Evaluation.receiver at given
        split at given
        · cases given
        · rename_i handle head
          exact ⟨handle, head⟩
  · rw [if_neg receives]
    refine enterSite_kept keeping computing covers (fun function kept resolved => ?_) ..
    exact ⟨keeping.consistent.resolveCall resolved, fun receives' => absurd receives' receives⟩

mutual

theorem evalExpr_kept (keeping : Keeping activation tally past depth) (vars : Variables) :
    ∀ (expr : Expr) (frame : Frame) (machine : Machine), Started past (.expr expr) frame →
      tally.Covers outer activation.code depth frame machine.world →
        Kept tally past outer (.expr expr)
          (Evaluation.evalExpr activation vars expr frame machine)
  | .literal type span value, frame, machine, started, covers => by
      obtain ⟨computing, same⟩ := started.computing
      have bare := computing.leaf (Nat.le_refl _) (fun _ _ _ _ call => nomatch call)
      rw [Evaluation.evalExpr]
      exact (same covers).leaf bare.1 bare.2
  | .var type span target, frame, machine, started, covers => by
      obtain ⟨computing, same⟩ := started.computing
      have bare := computing.leaf (Nat.le_refl _) (fun _ _ _ _ call => nomatch call)
      rw [Evaluation.evalExpr]
      cases Evaluation.readVariable machine.world.heap vars target span <;>
        exact (same covers).leaf bare.1 bare.2
  | .negate type span inner, frame, machine, started, covers => by
      obtain ⟨computing, same⟩ := started.computing
      have placed : (Expr.negate type span inner).operands[0]? = some inner := rfl
      have reached := operand_kept placed (evalExpr_kept keeping vars inner) computing (same covers)
      rw [Evaluation.evalExpr]
      generalize Evaluation.operand _ _ _ _ = ended at reached ⊢
      obtain ⟨progress, after⟩ := ended
      cases progress with
      | failed error => exact reached
      | suspended left => exact reached
      | done finished =>
          have bare := reached.1.leaf (Nat.le_refl _) (fun _ _ _ _ call => nomatch call)
          dsimp only
          cases Evaluation.negate (finished.temps.getLast?.getD .void) type span <;>
            exact reached.2.leaf bare.1 bare.2
  | .binary type span operator left right, frame, machine, started, covers => by
      obtain ⟨computing, same⟩ := started.computing
      have one : (Expr.binary type span operator left right).operands[0]? = some left := rfl
      have two : (Expr.binary type span operator left right).operands[1]? = some right := rfl
      have first := operand_kept one (evalExpr_kept keeping vars left) computing (same covers)
      rw [Evaluation.evalExpr]
      generalize Evaluation.operand 0 _ _ _ = ended at first ⊢
      obtain ⟨progress, between⟩ := ended
      cases progress with
      | failed error => exact first
      | suspended left => exact first
      | done middle =>
          have second := operand_kept two (evalExpr_kept keeping vars right) first.1 first.2
          dsimp only
          generalize Evaluation.operand 1 _ _ _ = ended at second ⊢
          obtain ⟨progress, after⟩ := ended
          cases progress with
          | failed error => exact second
          | suspended left => exact second
          | done finished =>
              have bare := second.1.leaf (Nat.le_refl _) (fun _ _ _ _ call => nomatch call)
              dsimp only
              cases Evaluation.operate operator left.type right.type type finished.temps span <;>
                exact second.2.leaf bare.1 bare.2
  | .call type span site operands, frame, machine, started, covers => by
      obtain ⟨computing, same⟩ := started.computing
      have reached := evalOperands_kept keeping vars (.call type span site operands) operands []
        rfl computing (same covers)
      rw [Evaluation.evalExpr]
      generalize Evaluation.evalOperands _ _ _ _ _ _ = ended at reached ⊢
      obtain ⟨progress, after⟩ := ended
      cases progress with
      | failed error => exact reached
      | suspended left => exact reached
      | done finished => exact callSite_kept keeping reached.1 reached.2

theorem evalOperands_kept (keeping : Keeping activation tally past depth) (vars : Variables)
    (expr : Expr) : ∀ (operands before : List Expr), before ++ operands = expr.operands →
      ∀ {frame : Frame} {machine : Machine}, Computing past expr before.length frame →
        tally.Covers outer activation.code depth frame machine.world →
          KeptOperand tally past outer activation.code depth expr expr.operands.length
            (Evaluation.evalOperands activation vars before.length operands frame machine)
  | [], before, whole, frame, machine, computing, covers => by
      rw [Evaluation.evalOperands, ← whole, List.append_nil]
      exact ⟨computing, covers⟩
  | first :: rest, before, whole, frame, machine, computing, covers => by
      have placed : expr.operands[before.length]? = some first := by
        rw [← whole, List.getElem?_append_right (Nat.le_refl _), Nat.sub_self]
        rfl
      have reached := operand_kept placed (evalExpr_kept keeping vars first) computing covers
      rw [Evaluation.evalOperands]
      generalize Evaluation.operand _ _ _ _ = ended at reached ⊢
      obtain ⟨progress, after⟩ := ended
      cases progress with
      | failed error => exact reached
      | suspended left => exact reached
      | done middle =>
          have longer : (before ++ [first]).length = before.length + 1 := by simp
          have behind := evalOperands_kept keeping vars expr rest (before ++ [first])
            (by simpa using whole) (longer ▸ reached.1) reached.2
          rw [longer] at behind
          exact behind

end

theorem evalThen_kept (keeping : Keeping activation tally past depth) {stmt : Stmt} {expr : Expr}
    (computes : stmt.value? = some expr) {frame : Frame} {state : RunState}
    (started : Started past (.expr expr) frame)
    (covers : tally.Covers outer activation.code depth frame state.machine.world)
    {continueWith : Value → RunState → Progress Completion × RunState}
    (continued : ∀ value machine, tally.holds outer [] machine.world.guards →
      Kept tally past outer (.stmt stmt) ((continueWith value { state with machine }).1,
        (continueWith value { state with machine }).2.machine)) :
    let result := Evaluation.evalThen activation expr frame state continueWith
    Kept tally past outer (.stmt stmt) (result.1, result.2.machine) := by
  have reached := evalExpr_kept keeping state.vars expr frame state.machine started covers
  unfold Evaluation.evalThen
  generalize Evaluation.evalExpr _ _ _ _ _ = ended at reached ⊢
  obtain ⟨progress, after⟩ := ended
  cases progress with
  | failed error => exact reached
  | suspended left => exact ⟨.value computes reached.1, reached.2⟩
  | done value => exact continued value after reached

theorem Started.value {stmt : Stmt} {expr : Expr} {frame : Frame}
    (started : Started past (.stmt stmt) frame) (computes : stmt.value? = some expr)
    (starts : (∀ span count, stmt ≠ .wait span count) ∨
      ∀ remaining, frame.state ≠ .wait remaining) : Started past (.expr expr) frame := by
  rcases started with rfl | progress
  · exact Or.inl rfl
  · cases progress with
    | value value progress =>
        rw [computes] at value
        cases value
        exact Or.inr progress
    | waiting =>
        rcases starts with other | starts
        · exact absurd rfl (other _ _)
        · exact absurd rfl (starts _)
    | nested => cases computes

theorem Started.fresh {stmt : Stmt} {frame : Frame} (started : Started past (.stmt stmt) frame)
    (plain : stmt.value? = none) (block : ∀ span stmts, stmt ≠ .block span stmts)
    (wait : ∀ span count, stmt ≠ .wait span count) : frame = {} := by
  rcases started with rfl | progress
  · rfl
  · cases progress with
    | value computes =>
        rw [plain] at computes
        cases computes
    | waiting => exact absurd rfl (wait _ _)
    | nested => exact absurd rfl (block _ _)

inductive Passing (past : Past) (stmts : List Stmt) (place : Nat) : Frame → Prop
  | reached : Passing past stmts place { state := .block place }
  | ahead {next : Nat} {stmt : Stmt} {child : Frame} : place ≤ next → stmts[next]? = some stmt →
      InProgress past (.stmt stmt) child →
      Passing past stmts place { state := .block next, children := [(next, child)] }

theorem Started.passing {stmts : List Stmt} {frame : Frame}
    (started : Started past (.block stmts) frame) :
    Passing past stmts 0 { frame with state := .block frame.nextStatement } := by
  rcases started with rfl | progress
  · exact .reached
  · cases progress with
    | block found progress => exact .ahead (Nat.zero_le _) found progress

theorem Started.covers_block {stmts : List Stmt} {frame : Frame}
    (started : Started past (.block stmts) frame) {world : World}
    (covers : tally.Covers outer code depth frame world) :
    tally.Covers outer code depth { frame with state := .block frame.nextStatement } world := by
  rcases started with rfl | progress
  · exact .of_leaf (covers.leaf rfl rfl) rfl rfl
  · cases progress with
    | block => exact covers

theorem Passing.due {stmts : List Stmt} {place : Nat} {frame : Frame} {stmt : Stmt}
    (passing : Passing past stmts place frame) (placed : stmts[place]? = some stmt)
    (due : ¬ place < frame.nextStatement) :
    frame.state = .block place ∧ frame.vars = [] ∧ frame.temps = [] ∧ frame.Single place ∧
      Started past (.stmt stmt) (frame.child place) := by
  cases passing with
  | reached => exact ⟨rfl, rfl, rfl, Frame.single_of_nil rfl, Or.inl (Frame.child_of_nil rfl)⟩
  | ahead bound found progress =>
      obtain rfl := Nat.le_antisymm bound (Nat.le_of_not_lt due)
      rw [found] at placed
      cases placed
      refine ⟨rfl, rfl, rfl, Frame.single_of_child rfl, Or.inr ?_⟩
      rw [Frame.child_of_child rfl]
      exact progress

theorem Passing.ended {stmts : List Stmt} {place : Nat} {frame : Frame}
    (passing : Passing past stmts place frame) (whole : stmts.length ≤ place) :
    frame = { state := .block place } := by
  cases passing with
  | reached => rfl
  | ahead bound found =>
      have inside := (List.getElem?_eq_some_iff.mp found).1
      exact absurd inside (Nat.not_lt.mpr (Nat.le_trans whole bound))

theorem Passing.passed {stmts : List Stmt} {place : Nat} {frame : Frame}
    (passing : Passing past stmts place frame) (passed : place < frame.nextStatement) :
    Passing past stmts (place + 1) frame := by
  cases passing with
  | reached => exact absurd passed (Nat.lt_irrefl _)
  | ahead _ found progress => exact .ahead passed found progress

mutual

theorem execStmt_kept (keeping : Keeping activation tally past depth) :
    ∀ (stmt : Stmt) (frame : Frame) (state : RunState), Started past (.stmt stmt) frame →
      tally.Covers outer activation.code depth frame state.machine.world →
        Kept tally past outer (.stmt stmt)
          ((Evaluation.execStmt activation stmt frame state).1,
            (Evaluation.execStmt activation stmt frame state).2.machine)
  | .block span body, frame, state, started, covers => by
      have inside : Started past (.block body) frame := by
        rcases started with rfl | progress
        · exact Or.inl rfl
        · cases progress with
          | value computes => cases computes
          | nested progress => exact Or.inr progress
      have reached := execStmts_kept keeping body body [] rfl inside.passing
        (inside.covers_block covers)
      rw [Evaluation.execStmt]
      generalize Evaluation.execStmts _ _ _ _ _ = ended at reached ⊢
      obtain ⟨progress, after⟩ := ended
      cases progress with
      | done completion => exact reached
      | failed error => exact reached
      | suspended left => exact ⟨.nested reached.1, reached.2⟩
  | .return _ none, _, _, started, covers => by
      obtain rfl := started.fresh rfl nofun nofun
      rw [Evaluation.execStmt]
      exact covers.leaf rfl rfl
  | .return _ (some expr), frame, state, started, covers => by
      rw [Evaluation.execStmt]
      exact evalThen_kept keeping rfl (started.value rfl (Or.inl fun _ _ same => nomatch same))
        covers fun _ _ kept => kept
  | .wait span count, frame, state, started, covers => by
      have waits : ∀ (frame : Frame) (state : RunState) (remaining : Nat),
          frame = { state := frame.state } → tally.holds outer [] state.machine.world.guards →
            Kept tally past outer (.stmt (.wait span count))
              ((Evaluation.waitStep frame state remaining).1,
                (Evaluation.waitStep frame state remaining).2.machine) := by
        intro frame state remaining bare kept
        cases remaining with
        | zero => exact kept
        | succ remaining =>
            rw [bare]
            exact ⟨.waiting, by simpa [Evaluation.waitStep] using kept⟩
      rw [Evaluation.execStmt]
      split
      · rename_i remaining waiting
        have bare : frame = { state := frame.state } := by
          rcases started with rfl | progress
          · rfl
          · cases progress with
            | value computes progress => cases progress <;> cases waiting
            | waiting => rfl
        refine waits frame state remaining bare (covers.leaf ?_ (by rw [bare]))
        rw [Frame.call?, waiting]
      · rename_i starts
        have value := started.value rfl (Or.inr fun remaining waiting => starts remaining waiting)
        refine evalThen_kept keeping rfl value covers fun value machine kept => ?_
        refine waits frame.clearProgress { state with machine } value.waitCount ?_ kept
        rcases started with rfl | progress
        · rfl
        · cases progress with
          | value computes progress => cases progress <;> rfl
          | waiting => rfl
  | .declare _ id name type none, _, _, started, covers => by
      obtain rfl := started.fresh rfl nofun nofun
      rw [Evaluation.execStmt]
      exact covers.leaf rfl rfl
  | .declare span id name type (some expr), frame, state, started, covers => by
      rw [Evaluation.execStmt]
      refine evalThen_kept keeping rfl (started.value rfl (Or.inl fun _ _ same => nomatch same))
        covers fun value machine kept => ?_
      split <;> exact kept
  | .assign span target expr, frame, state, started, covers => by
      rw [Evaluation.execStmt]
      refine evalThen_kept keeping rfl (started.value rfl (Or.inl fun _ _ same => nomatch same))
        covers fun value machine kept => ?_
      unfold Evaluation.assign
      split <;> exact kept
  | .expr expr, frame, state, started, covers => by
      rw [Evaluation.execStmt]
      exact evalThen_kept keeping rfl (started.value rfl (Or.inl fun _ _ same => nomatch same))
        covers fun _ _ kept => kept

theorem execStmts_kept (keeping : Keeping activation tally past depth) (whole : List Stmt) :
    ∀ (stmts before : List Stmt), before ++ stmts = whole →
      ∀ {frame : Frame} {state : RunState}, Passing past whole before.length frame →
        tally.Covers outer activation.code depth frame state.machine.world →
          Kept tally past outer (.block whole)
            ((Evaluation.execStmts activation before.length stmts frame state).1,
              (Evaluation.execStmts activation before.length stmts frame state).2.machine)
  | [], before, same, frame, state, passing, covers => by
      have whole : whole.length ≤ before.length := by simp [← same]
      obtain rfl := passing.ended whole
      rw [Evaluation.execStmts]
      exact covers.leaf rfl rfl
  | first :: rest, before, same, frame, state, passing, covers => by
      have placed : whole[before.length]? = some first := by
        rw [← same, List.getElem?_append_right (Nat.le_refl _), Nat.sub_self]
        rfl
      have longer : (before ++ [first]).length = before.length + 1 := by simp
      have further : (before ++ [first]) ++ rest = whole := by simpa using same
      rw [Evaluation.execStmts]
      by_cases passed : before.length < frame.nextStatement
      · rw [if_pos passed]
        have behind := execStmts_kept keeping whole rest (before ++ [first]) further
          (longer ▸ passing.passed passed) covers
        rw [longer] at behind
        exact behind
      · rw [if_neg passed]
        obtain ⟨blocked, bare, empty, single, started⟩ := passing.due placed passed
        obtain ⟨frameState, vars, temps, children⟩ := frame
        dsimp only at blocked bare empty
        subst blocked bare empty
        have reached := execStmt_kept keeping first _ state started (covers.child rfl single)
        generalize Evaluation.execStmt _ _ _ _ = ended at reached ⊢
        obtain ⟨progress, after⟩ := ended
        cases progress with
        | failed error => exact reached
        | suspended child =>
            obtain ⟨progress, kept⟩ := reached
            refine ⟨?_, single.kept rfl kept⟩
            rw [single.placed]
            exact .block placed progress
        | done completion =>
            cases completion with
            | «return» value => exact reached
            | next =>
                have kept : tally.holds outer [] after.machine.world.guards := reached
                simp only [single.removed]
                have next : Passing past whole (before ++ [first]).length
                    { state := .block (before.length + 1) } := by
                  rw [longer]
                  exact .reached
                have behind := execStmts_kept keeping whole rest (before ++ [first]) further next
                  (.of_leaf kept rfl rfl)
                rw [longer] at behind
                exact behind

end

end

section

variable {activation : Activation} {tally : Tally activation.context} {past : Past}
  {outer : List String}

theorem releaseGuard_kept {inner : Call} {machine : Machine}
    (held : tally.holds (outer ++ inner.heldGuard?.toList) [] machine.world.guards) :
    tally.holds outer [] (Invocation.releaseGuard activation.context inner machine).world.guards := by
  unfold Invocation.releaseGuard
  cases guard : inner.heldGuard? with
  | none => simpa [guard] using held
  | some owner =>
      rw [guard] at held
      exact tally.released held

def AtBody (past : Past) (function : Function) (frame : Frame) : Prop :=
  frame.children = [] ∨ ∃ body, frame.children = [(0, body)] ∧
    InProgress past (.block function.body.stmts) body

theorem bodyStep_kept (keeping : Keeping activation tally past depth) {invocation : Invocation}
    (among : invocation.function ∈ past.known) {vars : Variables}
    (binds : invocation.function.Binds vars) {state : FrameState} {old : Variables}
    {children : List (Nat × Frame)} {machine : Machine}
    (shape : AtBody past invocation.function ⟨state, old, [], children⟩)
    (held : tally.holds (outer ++
        (Call.heldGuard? { invocation.function.newCall with step := .runBody }).toList ++
          Frame.heldGuardsIn children) (Frame.awaitedIn children) machine.world.guards)
    (continues : tally.lenient ∨
      Frame.continueIn activation.code machine.world.heap depth [] children = true) :
    Kept tally past outer (.call invocation.function)
      (Invocation.bodyStep activation invocation
        { invocation.function.newCall with step := .runBody } vars ⟨state, old, [], children⟩
        machine) := by
  let running : Call := { invocation.function.newCall with step := .runBody }
  let frame : Frame := ⟨.call running, vars, [], children⟩
  have single : frame.Single 0 := by
    rcases shape with leaf | ⟨body, only, _⟩
    · exact Frame.single_of_nil leaf
    · exact Frame.single_of_child only
  have started : Started past (.block invocation.function.body.stmts) (frame.child 0) := by
    rcases shape with leaf | ⟨body, only, progress⟩
    · exact Or.inl (Frame.child_of_nil leaf)
    · have placed : frame.child 0 = body := Frame.child_of_child only
      rw [placed]
      exact Or.inr progress
  unfold Invocation.bodyStep
  dsimp only
  generalize machine.gate.ask = answer
  obtain ⟨allowed, gate⟩ := answer
  cases allowed with
  | false =>
      refine ⟨?_, by simpa using held⟩
      rcases shape with leaf | ⟨body, only, progress⟩
      · obtain rfl : children = [] := leaf
        exact .declined among binds
      · obtain rfl : children = [(0, body)] := only
        exact .running among binds progress
  | true =>
      -- While the body runs, the guard of the call is one of those that are held around it.
      have inside : tally.Covers (outer ++ running.heldGuard?.toList) activation.code depth
          (frame.child 0) machine.world := by
        refine ⟨?_, continues.imp_right fun goes => (single.continues goes).2⟩
        rw [← single.guards, ← single.awaited]
        exact held
      let body : Frame :=
        { frame.child 0 with state := .block (frame.child 0).nextStatement }
      let state : RunState := ⟨vars, { machine with gate }⟩
      have reached : Kept tally past (outer ++ running.heldGuard?.toList)
          (.block invocation.function.body.stmts)
          ((Evaluation.execStmts activation 0 invocation.function.body.stmts body state).1,
            (Evaluation.execStmts activation 0 invocation.function.body.stmts body
              state).2.machine) :=
        execStmts_kept keeping _ invocation.function.body.stmts [] rfl started.passing
          (started.covers_block inside)
      have bound : invocation.function.Binds
          (Evaluation.execStmts activation 0 invocation.function.body.stmts body state).2.vars :=
        execStmts_binds activation 0 _ body state binds
          (keeping.coherent _ among).declared
      simp only [Bool.not_true, Bool.false_eq_true, if_false, Evaluation.execBlock]
      generalize Evaluation.execStmts activation 0 _ body state = ended at reached bound ⊢
      obtain ⟨progress, after⟩ := ended
      cases progress with
      | done completion =>
          have released : tally.holds outer []
              (Invocation.releaseGuard activation.context running after.machine).world.guards :=
            releaseGuard_kept reached
          dsimp only
          cases Invocation.result invocation.function completion <;> exact released
      | failed error => exact releaseGuard_kept reached
      | suspended left =>
          obtain ⟨progress, kept⟩ := reached
          have placed : ({ frame.withChild 0 left with vars := after.vars } : Frame) =
              ⟨.call running, after.vars, [], [(0, left)]⟩ := by
            rw [single.placed]
          change InProgress past _ { frame.withChild 0 left with vars := after.vars } ∧
            tally.holds (outer ++ Frame.heldGuards { frame.withChild 0 left with vars := _ })
              (Frame.awaited { frame.withChild 0 left with vars := _ }) _
          rw [placed, Frame.heldGuards_call, Frame.heldGuardsIn_single, ← List.append_assoc,
            Frame.awaited_call, if_neg CallStep.noConfusion, List.nil_append,
            Frame.awaitedIn_single]
          exact ⟨.running among bound progress, kept⟩

theorem programInstance_guards {code : Code} {program : ProgramId} {className : String}
    {world after : World} {handle : Handle}
    (chosen : Invocation.programInstance code program className world = .ok (handle, after)) :
    after.guards = world.guards := by
  unfold Invocation.programInstance at chosen
  dsimp only at chosen
  split at chosen
  · cases chosen
    rfl
  · split at chosen
    · cases chosen
    · cases chosen
      split <;> rfl

theorem bindInstance_guards {code : Code} {invocation : Invocation} {vars bound : Variables}
    {world after : World}
    (done : Invocation.bindInstance code invocation vars world = .ok (bound, after)) :
    after.guards = world.guards := by
  unfold Invocation.bindInstance at done
  cases owned : invocation.function.owner with
  | none =>
      simp only [owned, Except.ok.injEq, Prod.mk.injEq] at done
      rw [← done.2]
  | some owner =>
      cases given : invocation.receiver with
      | some handle =>
          simp only [owned, given, bind, Except.bind, pure, Except.pure, Except.ok.injEq,
            Prod.mk.injEq] at done
          rw [← done.2]
      | none =>
          simp only [owned, given, bind, Except.bind, pure, Except.pure] at done
          split at done
          · cases done
          · rename_i chosen
            cases done
            exact programInstance_guards chosen

theorem guardStep_kept (keeping : Keeping activation tally past depth) {invocation : Invocation}
    (among : invocation.function ∈ past.known) {vars : Variables}
    (binds : invocation.function.Binds vars)
    (locks : invocation.function.signature.callKind.isSynchronized = true) {state : FrameState}
    {old : Variables} {machine : Machine} {awaited : List String}
    (waits : awaited ⊆ invocation.function.owner.toList)
    (held : tally.holds outer awaited machine.world.guards) :
    Kept tally past outer (.call invocation.function)
      (Invocation.guardStep activation invocation
        { invocation.function.newCall with step := .acquireGuard } vars ⟨state, old, [], []⟩
        machine) := by
  obtain ⟨owner, owned⟩ : ∃ owner, invocation.function.owner = some owner := by
    cases kind : invocation.function.signature.callKind with
    | function | method => simp [kind, CallKind.isSynchronized] at locks
    | dispatched isSynchronized => exact Signature.owner_of_dispatched kind
  have calls : invocation.function.newCall.owner = some owner := owned
  have locking : invocation.function.newCall.kind.isSynchronized = true := locks
  rw [owned] at waits
  unfold Invocation.guardStep
  rw [owned]
  dsimp only [Option.getD_some]
  cases locked : machine.world.guards.tryLock owner activation.context with
  | mk taken guards =>
      cases taken with
      | false =>
          refine ⟨.queued among binds locks, ?_⟩
          have refused := tally.refused held waits locked
          simpa [Call.heldGuard?, Call.holdsGuard, calls] using refused
      | true =>
          have taken := tally.taken held waits locked
          refine bodyStep_kept keeping among binds (Or.inl rfl) ?_ (Or.inr (by simp))
          simpa [Call.heldGuard?, Call.holdsGuard, calls, locking] using taken

theorem instanceStep_kept (keeping : Keeping activation tally past depth) {invocation : Invocation}
    (among : invocation.function ∈ past.known) {vars : Variables}
    (binds : invocation.function.Binds vars) {state : FrameState} {old : Variables}
    {machine : Machine} (held : tally.holds outer [] machine.world.guards) :
    Kept tally past outer (.call invocation.function)
      (Invocation.instanceStep activation invocation
        { invocation.function.newCall with step := .bindInstance } vars ⟨state, old, [], []⟩
        machine) := by
  unfold Invocation.instanceStep
  split
  · exact held
  · rename_i bound world done
    have bound := bindInstance_binds (keeping.coherent _ among) binds done
    have same : world.guards = machine.world.guards := bindInstance_guards done
    rw [← same] at held
    dsimp only [Call.advance, CallStep.next]
    by_cases locks : invocation.function.signature.callKind.isSynchronized = true
    · have locking : invocation.function.newCall.kind.isSynchronized = true := locks
      rw [if_pos locking]
      rw [if_pos rfl]
      exact guardStep_kept keeping among bound locks (List.nil_subset _) held
    · have free : ¬ invocation.function.newCall.kind.isSynchronized = true := locks
      simp only [if_neg free]
      rw [if_neg CallStep.noConfusion]
      refine bodyStep_kept keeping among bound (Or.inl rfl) ?_ (Or.inr (by simp))
      simpa [Call.heldGuard?, Call.holdsGuard, free] using held

theorem paramsStep_kept (keeping : Keeping activation tally past depth) {invocation : Invocation}
    (among : invocation.function ∈ past.known) {state : FrameState} {old : Variables}
    {machine : Machine} (held : tally.holds outer [] machine.world.guards) :
    Kept tally past outer (.call invocation.function)
      (Invocation.paramsStep activation invocation invocation.function.newCall []
        ⟨state, old, [], []⟩ machine) := by
  have bound := bind_binds (keeping.coherent _ among) invocation.args
  unfold Invocation.paramsStep
  split
  · exact held
  · rename_i vars taken
    rw [taken] at bound
    dsimp only [Call.advance, CallStep.next, Function.newCall]
    by_cases owned : invocation.function.signature.callKind.bindsInstance = true
    · simp only [if_pos owned]
      exact instanceStep_kept keeping among bound held
    · simp only [if_neg owned]
      rw [if_neg CallStep.noConfusion]
      have free : invocation.function.signature.callKind.isSynchronized = false := by
        cases kind : invocation.function.signature.callKind <;>
          simp [kind, CallKind.bindsInstance, CallKind.isSynchronized] at owned ⊢
      refine bodyStep_kept keeping among bound (Or.inl rfl) ?_ (Or.inr (by simp))
      simpa [Call.heldGuard?, Call.holdsGuard, Function.newCall, free] using held

theorem steps_kept (keeping : Keeping activation tally past depth) {invocation : Invocation}
    (among : invocation.function ∈ past.known)
    {frame : Frame} {machine : Machine}
    (started : Started past (.call invocation.function) frame)
    (covers : tally.Covers outer activation.code (depth + 1) frame machine.world) :
    Kept tally past outer (.call invocation.function)
      (Invocation.steps activation invocation (Invocation.entered invocation frame).1
        (Invocation.entered invocation frame).2 machine) := by
  rcases started with rfl | progress
  · exact paramsStep_kept keeping among (covers.leaf rfl rfl)
  · obtain ⟨counted, continues⟩ := covers
    cases progress with
    | queued _ binds locks =>
        have waits := List.Subset.refl invocation.function.owner.toList
        refine guardStep_kept keeping among binds locks waits ?_
        simpa [Call.heldGuard?, Call.holdsGuard, Function.newCall] using counted
    | declined _ binds =>
        refine bodyStep_kept keeping among binds (Or.inl rfl) ?_ (Or.inr (by simp))
        simpa using counted
    | running _ binds progress =>
        refine bodyStep_kept keeping among binds (Or.inr ⟨_, rfl, progress⟩) ?_
          (continues.imp_right fun goes => ?_)
        · simpa using counted
        · simp only [Frame.continues_call, Bool.and_eq_true] at goes
          exact goes.2

end

/-- However far a call gets, it leaves frames of its progress, and the guards they hold tallied. -/
theorem run_kept {past : Past} {code : Code} {context : ContextId} (tally : Tally context)
    (fits : past.Fits code) (depth : Nat) (outer : List String) (invocation : Invocation)
    (frame : Frame) (machine : Machine) (among : invocation.function ∈ past.known)
    (started : Started past (.call invocation.function) frame)
    (covers : tally.Covers outer code depth frame machine.world) :
    Kept tally past outer (.call invocation.function)
      (Invocation.run code context depth invocation frame machine) := by
  induction depth generalizing outer invocation frame machine with
  | zero =>
      -- No call is entered here: one in progress is dropped, which only a lenient tally puts up
      -- with.
      rcases started with rfl | progress
      · exact covers.leaf rfl rfl
      · rcases covers.continues with lenient | goes
        · exact tally.dropped lenient covers.counted
        · exact absurd (fits.found progress goes).1 (Nat.lt_irrefl 0)
  | succ depth ih =>
      let activation : Activation :=
        ⟨code, context, invocation.function.program, Invocation.run code context depth⟩
      have keeping : @Keeping activation tally past depth :=
        { fits with call := ih }
      have reached := @steps_kept activation tally past outer depth keeping invocation among frame
        machine started covers
      unfold Invocation.run
      dsimp only
      generalize Invocation.steps activation _ _ _ _ = ended at reached ⊢
      obtain ⟨progress, after⟩ := ended
      cases progress <;> exact reached

end ScriptEngine
