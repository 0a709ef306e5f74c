import ScriptEngine.Proofs.Conversions
import ScriptEngine.Proofs.Effects
import ScriptEngine.Proofs.Environment
import ScriptEngine.Proofs.SavedStacks
/-! What running code stores. Whatever is written to a variable, it is converted to the type of the
variable before, and converting it once more changes nothing. So the variables of running calls hold
values of their types, those on the frames of a call that yields, and the members of all objects. -/

namespace ScriptEngine

def Variable.Stored (exact : Prop) (var : Variable) : Prop :=
  (var.type.kind = .float → exact) → var.value.convert? var.type = some var.value

def Variables.Stored (exact : Prop) (vars : Variables) : Prop := ∀ var ∈ vars, var.Stored exact

def Object.Stored (exact : Prop) (object : Object) : Prop := object.fields.Stored exact

section

variable {exact : Prop}

namespace Variable

theorem Stored.of_value {var : Variable} (kept : var.value.convert? var.type = some var.value) :
    var.Stored exact := fun _ => kept

theorem stored_new (name : String) (type : DataType) : (Variable.new name type).Stored exact :=
  .of_value (Value.convert?_default type)

theorem stored_holding {written value : Value} {type : DataType}
    (converted : written.convert? type = some value) (name : String) :
    (Variable.holding name type value).Stored exact := .of_value (Value.convert?_convert? converted)

theorem stored_set {var : Variable} {written value : Value}
    (converted : written.convert? var.type = some value) : (var.set value).Stored exact :=
  .of_value (Value.convert?_convert? converted)

theorem Stored.bind {var : Variable} (stored : var.Stored exact) (binding : Binding) :
    (var.bind binding).Stored exact := stored

end Variable

theorem Object.stored_made {classes : ClassTable} {className : String} {fields : Variables}
    (members : classes.members? className = some fields) :
    Object.Stored exact ⟨className, fields⟩ := by
  intro field among
  refine .of_value ?_
  rw [ClassTable.value_of_members? members field among]
  exact Value.convert?_default _

namespace Variables.Stored

variable {vars more : Variables}

theorem append (stored : vars.Stored exact) (also : more.Stored exact) :
    Variables.Stored exact (vars ++ more) := List.forall_mem_append.mpr ⟨stored, also⟩

theorem concat (stored : vars.Stored exact) {var : Variable} (also : var.Stored exact) :
    Variables.Stored exact (vars ++ [var]) :=
  stored.append (List.forall_mem_singleton.mpr also)

theorem updateFirst (stored : vars.Stored exact) {wanted : Variable → Bool} {written value : Value}
    (converted : ∀ var, List.find? wanted vars = some var →
      written.convert? var.type = some value) :
    Variables.Stored exact (vars.updateFirst wanted fun var => var.set value) := by
  intro var among
  rcases mem_updateFirst among with kept | ⟨old, found, rfl⟩
  · exact stored var kept
  · exact Variable.stored_set (converted old found)

theorem update (stored : vars.Stored exact) {binding : Binding} {var : Variable}
    {written value : Value} (found : vars.find? binding = some var)
    (converted : written.convert? var.type = some value) :
    Variables.Stored exact (vars.update binding fun var => var.set value) := by
  intro other among
  rcases mem_update among with kept | ⟨old, held, rfl⟩
  · exact stored other kept
  · rw [found] at held
    cases held
    exact Variable.stored_set converted

end Variables.Stored

namespace Frame

theorem areOrdered_iff {children : List (Nat × Frame)} : areOrdered children = true ↔
    (children.map Prod.fst).Pairwise (· < ·) ∧ ∀ entry ∈ children, entry.2.isOrdered = true := by
  induction children with
  | nil => simp [areOrdered]
  | cons entry rest ih =>
      simp only [areOrdered, Bool.and_eq_true, List.all_eq_true, decide_eq_true_eq, ih,
        List.map_cons, List.pairwise_cons, List.forall_mem_map, List.forall_mem_cons]
      tauto

theorem mem_trees {frame : Frame} {children : List (Nat × Frame)} :
    frame ∈ trees children ↔ ∃ entry ∈ children, frame ∈ entry.2.tree := by
  induction children with
  | nil => simp [trees]
  | cons entry rest ih => simp [trees, ih]

theorem place_ordered {children : List (Nat × Frame)}
    (ordered : (children.map Prod.fst).Pairwise (· < ·)) (slot : Nat) (child : Frame) :
    ((place slot child children).map Prod.fst).Pairwise (· < ·) := by
  induction children with
  | nil => exact List.pairwise_singleton ..
  | cons first rest ih =>
      rw [List.map_cons, List.pairwise_cons] at ordered
      rw [place]
      split
      · rename_i before
        refine List.pairwise_cons.mpr ⟨?_, List.pairwise_cons.mpr ordered⟩
        rw [List.map_cons, List.forall_mem_cons]
        exact ⟨before, fun other among => Nat.lt_trans before (ordered.1 other among)⟩
      · split
        · rename_i same
          rw [List.map_cons, List.pairwise_cons]
          exact ⟨same ▸ ordered.1, ordered.2⟩
        · rename_i behind different
          refine List.pairwise_cons.mpr ⟨?_, ih ordered.2⟩
          rw [List.forall_mem_map]
          intro entry among
          rcases mem_place among with rfl | kept
          · omega
          · exact ordered.1 _ (List.mem_map_of_mem kept)

variable (exact) in
/-- The variables on a frame tree hold values of their types, and its children are in the order of
their slots, so that it is read back as it was saved. -/
structure Stored (frame : Frame) : Prop where
  vars : ∀ inner ∈ frame.tree, inner.vars.Stored exact
  ordered : frame.isOrdered = true

theorem stored_iff {frame : Frame} : frame.Stored exact ↔ frame.vars.Stored exact ∧
    (frame.children.map Prod.fst).Pairwise (· < ·) ∧
      ∀ entry ∈ frame.children, entry.2.Stored exact := by
  obtain ⟨state, vars, temps, children⟩ := frame
  constructor
  · rintro ⟨stored, ordered⟩
    rw [tree, List.forall_mem_cons] at stored
    rw [isOrdered, areOrdered_iff] at ordered
    exact ⟨stored.1, ordered.1, fun entry among =>
      ⟨fun inner below => stored.2 inner (mem_trees.mpr ⟨entry, among, below⟩),
        ordered.2 entry among⟩⟩
  · rintro ⟨stored, ordered, below⟩
    constructor
    · rw [tree, List.forall_mem_cons]
      refine ⟨stored, fun inner nested => ?_⟩
      obtain ⟨entry, among, deep⟩ := mem_trees.mp nested
      exact (below entry among).vars inner deep
    · rw [isOrdered, areOrdered_iff]
      exact ⟨ordered, fun entry among => (below entry among).ordered⟩

theorem stored_leaf {state : FrameState} {temps : List Value} {vars : Variables}
    (stored : vars.Stored exact) : Stored exact ⟨state, vars, temps, []⟩ :=
  stored_iff.mpr ⟨stored, List.Pairwise.nil, nofun⟩

theorem stored_fresh : Stored exact {} := stored_leaf nofun

namespace Stored

variable {frame inner : Frame}

theorem own (stored : frame.Stored exact) : frame.vars.Stored exact := (stored_iff.mp stored).1

theorem moved (stored : frame.Stored exact) (state : FrameState) (temps : List Value) :
    Stored exact { frame with state, temps } := by
  rw [stored_iff] at stored ⊢
  exact stored

theorem withVars (stored : frame.Stored exact) {vars : Variables} (also : vars.Stored exact) :
    Stored exact { frame with vars } := by
  rw [stored_iff] at stored ⊢
  exact ⟨also, stored.2⟩

theorem child? (stored : frame.Stored exact) {slot : Nat} (found : frame.child? slot = some inner) :
    inner.Stored exact := by
  obtain ⟨before, behind, split, _⟩ := List.lookup_eq_some_iff.mp found
  exact (stored_iff.mp stored).2.2 (slot, inner) (by simp [split])

theorem child (stored : frame.Stored exact) (slot : Nat) : (frame.child slot).Stored exact := by
  unfold Frame.child
  cases found : frame.child? slot with
  | none => exact stored_fresh
  | some inner => exact stored.child? found

theorem withChild (stored : frame.Stored exact) (slot : Nat) (also : inner.Stored exact) :
    (frame.withChild slot inner).Stored exact := by
  obtain ⟨vars, ordered, below⟩ := stored_iff.mp stored
  refine stored_iff.mpr ⟨vars, place_ordered ordered slot inner, fun entry among => ?_⟩
  rcases mem_place among with rfl | kept
  · exact also
  · exact below entry kept

theorem withoutChild (stored : frame.Stored exact) (slot : Nat) :
    (frame.withoutChild slot).Stored exact := by
  obtain ⟨vars, ordered, below⟩ := stored_iff.mp stored
  refine stored_iff.mpr ⟨vars, ?_, fun entry among => below entry (List.mem_filter.mp among).1⟩
  exact ordered.sublist (List.filter_sublist.map Prod.fst)

theorem clearProgress (stored : frame.Stored exact) : frame.clearProgress.Stored exact :=
  stored_leaf stored.own

theorem startEval (stored : frame.Stored exact) : frame.startEval.Stored exact := by
  unfold Frame.startEval
  split
  · exact stored
  · exact stored.clearProgress.moved ..

end Stored

end Frame

variable (exact) in
def Progress.Leaves {α : Type} (holds : α → Prop) : Progress α → Prop
  | .done value => holds value
  | .suspended frame => frame.Stored exact
  | .failed _ => True

theorem Progress.leaves_ofExcept {α : Type} (result : Except RuntimeError α) :
    (Progress.ofExcept result).Leaves exact fun _ => True := by
  cases result <;> trivial

variable (exact) in
structure RunState.Leaves (ended : Progress Completion × RunState) : Prop where
  progress : ended.1.Leaves exact fun _ => True
  vars : ended.2.vars.Stored exact

variable (exact) in
def Activation.Stores (activation : Activation) : Prop := ∀ invocation frame machine,
  frame.Stored exact → (activation.call invocation frame machine).1.Leaves exact fun _ => True

section

open Evaluation

variable {activation : Activation} {frame : Frame}

theorem operand_leaves (slot : Nat) {evaluate : Frame → Machine → Progress Value × Machine}
    (evaluated : ∀ frame machine, frame.Stored exact →
      (evaluate frame machine).1.Leaves exact fun _ => True)
    (stored : frame.Stored exact) (machine : Machine) :
    (operand slot evaluate frame machine).1.Leaves exact (Frame.Stored exact) := by
  unfold operand
  split
  · exact stored
  · have left := evaluated (frame.child slot) machine (stored.child slot)
    generalize evaluate (frame.child slot) machine = ended at left ⊢
    obtain ⟨progress, after⟩ := ended
    cases progress with
    | done value => exact (stored.withoutChild slot).moved ..
    | suspended child => exact stored.withChild slot left
    | failed error => exact left

theorem enterSite_leaves (nested : activation.Stores exact) (site : CallSite) (slot : Nat)
    (callee : Callee) (receiver : Option Handle) (args : Variables) (stored : frame.Stored exact)
    (machine : Machine) :
    (enterSite activation site slot callee receiver args frame machine).1.Leaves exact
      fun _ => True := by
  cases callee with
  | gone | notFound => trivial
  | found function kept =>
      have left := nested ⟨function, receiver, args, some site.span, activation.program⟩
        (frame.child slot)
        { machine with world := machine.world.keepCallee ⟨activation.program, site.offset⟩ kept }
        (stored.child slot)
      simp only [enterSite]
      generalize activation.call _ _ _ = ended at left ⊢
      obtain ⟨progress, after⟩ := ended
      cases progress with
      | suspended child => exact stored.withChild slot left
      | done value | failed error => exact left

theorem callSite_leaves (nested : activation.Stores exact) (site : CallSite)
    (types : List DataType) (stored : frame.Stored exact) (machine : Machine) :
    (callSite activation site types frame machine).1.Leaves exact fun _ => True := by
  unfold callSite
  dsimp only
  split
  · split
    · trivial
    · exact enterSite_leaves nested _ _ _ _ _ stored machine
  · exact enterSite_leaves nested _ _ _ _ _ stored machine

mutual

theorem evalExpr_leaves (nested : activation.Stores exact) (vars : Variables) :
    ∀ (expr : Expr) (frame : Frame) (machine : Machine), frame.Stored exact →
      (evalExpr activation vars expr frame machine).1.Leaves exact fun _ => True
  | .literal .., _, _, _ => by
      rw [evalExpr]
      trivial
  | .var .., _, _, _ => by
      rw [evalExpr]
      exact Progress.leaves_ofExcept _
  | .negate type span inner, frame, machine, stored => by
      rw [evalExpr]
      have left := operand_leaves 0 (evalExpr_leaves nested vars inner) stored.startEval machine
      generalize operand _ _ _ _ = ended at left ⊢
      obtain ⟨progress, after⟩ := ended
      cases progress with
      | done frame => exact Progress.leaves_ofExcept _
      | suspended frame | failed error => exact left
  | .binary type span operator first second, frame, machine, stored => by
      rw [evalExpr]
      have left := operand_leaves 0 (evalExpr_leaves nested vars first) stored.startEval machine
      generalize operand 0 _ _ _ = ended at left ⊢
      obtain ⟨progress, after⟩ := ended
      cases progress with
      | suspended frame | failed error => exact left
      | done frame =>
          have left := operand_leaves 1 (evalExpr_leaves nested vars second) left after
          dsimp only
          generalize operand 1 _ _ _ = ended at left ⊢
          obtain ⟨progress, behind⟩ := ended
          cases progress with
          | done frame => exact Progress.leaves_ofExcept _
          | suspended frame | failed error => exact left
  | .call type span site operands, frame, machine, stored => by
      rw [evalExpr]
      have left := evalOperands_leaves nested vars 0 operands frame.startEval machine
        stored.startEval
      generalize evalOperands _ _ _ _ _ _ = ended at left ⊢
      obtain ⟨progress, after⟩ := ended
      cases progress with
      | done frame => exact callSite_leaves nested site _ left after
      | suspended frame | failed error => exact left

theorem evalOperands_leaves (nested : activation.Stores exact) (vars : Variables) (slot : Nat) :
    ∀ (operands : List Expr) (frame : Frame) (machine : Machine), frame.Stored exact →
      (evalOperands activation vars slot operands frame machine).1.Leaves exact
        (Frame.Stored exact)
  | [], _, _, stored => by
      rw [evalOperands]
      exact stored
  | first :: rest, frame, machine, stored => by
      rw [evalOperands]
      have left := operand_leaves slot (evalExpr_leaves nested vars first) stored machine
      generalize operand _ _ _ _ = ended at left ⊢
      obtain ⟨progress, after⟩ := ended
      cases progress with
      | done frame => exact evalOperands_leaves nested vars (slot + 1) rest frame after left
      | suspended frame | failed error => exact left

end

variable {state : RunState}

theorem evalThen_leaves (nested : activation.Stores exact) (expr : Expr)
    (stored : frame.Stored exact) (vars : state.vars.Stored exact)
    {continueWith : Value → RunState → Progress Completion × RunState}
    (continued : ∀ value state, state.vars.Stored exact →
      RunState.Leaves exact (continueWith value state)) :
    RunState.Leaves exact (evalThen activation expr frame state continueWith) := by
  unfold evalThen
  have left := evalExpr_leaves nested state.vars expr frame state.machine stored
  generalize evalExpr _ _ _ _ _ = ended at left ⊢
  obtain ⟨progress, after⟩ := ended
  cases progress with
  | done value => exact continued value { state with machine := after } vars
  | suspended frame | failed error => exact ⟨left, vars⟩

theorem waitStep_leaves (stored : frame.Stored exact) (vars : state.vars.Stored exact)
    (remaining : Nat) : RunState.Leaves exact (waitStep frame state remaining) := by
  cases remaining with
  | zero => exact ⟨trivial, vars⟩
  | succ remaining => exact ⟨stored.moved .., vars⟩

theorem declare_leaves (vars : state.vars.Stored exact) (id : VarId) {var : Variable}
    (also : var.Stored exact) : RunState.Leaves exact (declare id var state) :=
  ⟨trivial, vars.concat (also.bind _)⟩

theorem assign_leaves (vars : state.vars.Stored exact) (target : Target) (span : Span)
    (value : Value) : RunState.Leaves exact (assign target span value state) := by
  unfold assign
  split
  · rename_i wrote
    refine ⟨trivial, ?_⟩
    rcases writeVariable_cases wrote with ⟨_, _, _, found, converted, _, rfl⟩ |
      ⟨_, _, _, _, _, _, _, _, _, rfl⟩
    · exact vars.update found converted
    · exact vars
  · exact ⟨trivial, vars⟩

mutual

theorem execStmt_leaves (nested : activation.Stores exact) :
    ∀ (stmt : Stmt) (frame : Frame) (state : RunState), frame.Stored exact →
      state.vars.Stored exact → RunState.Leaves exact (execStmt activation stmt frame state)
  | .block _ stmts, frame, state, stored, vars => by
      rw [execStmt]
      exact execStmts_leaves nested 0 stmts _ state (stored.moved ..) vars
  | .return _ none, _, _, _, vars => by
      rw [execStmt]
      exact ⟨trivial, vars⟩
  | .return _ (some expr), frame, state, stored, vars => by
      rw [execStmt]
      exact evalThen_leaves nested expr stored vars fun _ _ vars => ⟨trivial, vars⟩
  | .wait _ count, frame, state, stored, vars => by
      rw [execStmt]
      split
      · exact waitStep_leaves stored vars _
      · exact evalThen_leaves nested count stored vars fun value _ vars =>
          waitStep_leaves stored.clearProgress vars value.waitCount
  | .declare _ id name type none, _, _, _, vars => by
      rw [execStmt]
      exact declare_leaves vars id (Variable.stored_new name type)
  | .declare span id name type (some expr), frame, state, stored, vars => by
      rw [execStmt]
      refine evalThen_leaves nested expr stored vars fun value state vars => ?_
      unfold convert
      cases converted : value.convert? type with
      | none => exact ⟨trivial, vars⟩
      | some value => exact declare_leaves vars id (Variable.stored_holding converted name)
  | .assign span target expr, frame, state, stored, vars => by
      rw [execStmt]
      exact evalThen_leaves nested expr stored vars fun value _ vars =>
        assign_leaves vars target span value
  | .expr expr, frame, state, stored, vars => by
      rw [execStmt]
      exact evalThen_leaves nested expr stored vars fun _ _ vars => ⟨trivial, vars⟩

theorem execStmts_leaves (nested : activation.Stores exact) (place : Nat) :
    ∀ (stmts : List Stmt) (frame : Frame) (state : RunState), frame.Stored exact →
      state.vars.Stored exact → RunState.Leaves exact (execStmts activation place stmts frame state)
  | [], _, _, _, vars => by
      rw [execStmts]
      exact ⟨trivial, vars⟩
  | first :: rest, frame, state, stored, vars => by
      rw [execStmts]
      split
      · exact execStmts_leaves nested (place + 1) rest frame state stored vars
      · obtain ⟨left, vars⟩ :=
          execStmt_leaves nested first (frame.child place) state (stored.child place) vars
        generalize execStmt _ _ _ _ = ended at left vars ⊢
        obtain ⟨progress, after⟩ := ended
        cases progress with
        | suspended child => exact ⟨stored.withChild place left, vars⟩
        | failed error => exact ⟨left, vars⟩
        | done completion =>
            cases completion with
            | next =>
                have passed := (stored.withoutChild place).moved (.block (place + 1))
                  (frame.withoutChild place).temps
                exact execStmts_leaves nested (place + 1) rest _ after passed vars
            | «return» value => exact ⟨left, vars⟩

end

end

section

open Invocation

theorem ParamList.bindFrom_stored (args : Variables) (params : List Param) :
    ∀ (place : Nat) {vars : Variables}, vars.Stored exact →
      (bindFrom args place vars params).1.Stored exact := by
  induction params with
  | nil => exact fun _ _ stored => stored
  | cons param rest ih =>
      intro place vars stored
      rw [bindFrom]
      unfold bindParam
      cases given : (args[place]?).bind fun arg => arg.value.convert? param.type with
      | none => exact stored
      | some value =>
          obtain ⟨arg, _, converted⟩ := Option.bind_eq_some_iff.mp given
          exact ih (place + 1)
            (stored.concat ((Variable.stored_holding converted param.name).bind _))

theorem reservedVariables_stored (code : Code) (owner : String) (handle : Handle) :
    Variables.Stored exact (reservedVariables code owner handle) := by
  have pointer : ∀ name className, (Variable.pointer name className handle).Stored exact :=
    fun _ _ => .of_value rfl
  refine List.forall_mem_cons.mpr ⟨(pointer _ _).bind _, ?_⟩
  split
  · exact List.forall_mem_singleton.mpr ((pointer _ _).bind _)
  · exact nofun

variable {activation : Activation} (invocation : Invocation) (call : Call) {vars : Variables}
  {frame : Frame} (machine : Machine)

theorem bodyStep_leaves (nested : activation.Stores exact) (bound : vars.Stored exact)
    (stored : frame.Stored exact) :
    (bodyStep activation invocation call vars frame machine).1.Leaves exact fun _ => True := by
  have entered : Frame.Stored exact { frame with state := .call call, vars } :=
    (stored.withVars bound).moved ..
  unfold bodyStep
  generalize machine.gate.ask = answer
  obtain ⟨allowed, gate⟩ := answer
  cases allowed with
  | false => exact entered
  | true =>
      obtain ⟨left, vars⟩ := execStmts_leaves nested 0 invocation.function.body.stmts
        { Frame.child { frame with state := .call call, vars } 0 with
          state := .block (Frame.child { frame with state := .call call, vars } 0).nextStatement }
        ⟨vars, { machine with gate }⟩ ((entered.child 0).moved ..) bound
      simp only [Bool.not_true, Bool.false_eq_true, if_false, Evaluation.execBlock]
      generalize Evaluation.execStmts _ _ _ _ _ = ended at left vars ⊢
      obtain ⟨progress, after⟩ := ended
      cases progress with
      | suspended body => exact (entered.withChild 0 left).withVars vars
      | failed error => exact left
      | done completion => exact Progress.leaves_ofExcept _

theorem guardStep_leaves (nested : activation.Stores exact) (bound : vars.Stored exact)
    (stored : frame.Stored exact) :
    (guardStep activation invocation call vars frame machine).1.Leaves exact fun _ => True := by
  unfold guardStep
  dsimp only
  split
  · exact bodyStep_leaves invocation _ _ nested bound stored
  · exact (stored.withVars bound).moved ..

theorem instanceStep_leaves (nested : activation.Stores exact) (bound : vars.Stored exact)
    (stored : frame.Stored exact) :
    (instanceStep activation invocation call vars frame machine).1.Leaves exact fun _ => True := by
  unfold instanceStep
  split
  · trivial
  · rename_i made world done
    have bound : made.Stored exact := by
      rcases bindInstance_cases done with ⟨_, rfl, _⟩ | ⟨owner, handle, _, rfl, _⟩
      · exact bound
      · exact bound.append (reservedVariables_stored _ owner handle)
    dsimp only
    split
    · exact guardStep_leaves invocation _ _ nested bound stored
    · exact bodyStep_leaves invocation _ _ nested bound stored

theorem paramsStep_leaves (nested : activation.Stores exact) (bound : vars.Stored exact)
    (stored : frame.Stored exact) :
    (paramsStep activation invocation call vars frame machine).1.Leaves exact fun _ => True := by
  have bound := ParamList.bindFrom_stored invocation.args invocation.function.params.params 0 bound
  unfold paramsStep
  split
  · trivial
  · rename_i done
    have bound := (congrArg Prod.fst done) ▸ bound
    dsimp only
    split
    · exact instanceStep_leaves invocation _ _ nested bound stored
    · exact bodyStep_leaves invocation _ _ nested bound stored

theorem steps_leaves (nested : activation.Stores exact) (stored : frame.Stored exact) :
    (steps activation invocation call frame machine).1.Leaves exact fun _ => True := by
  unfold steps
  cases call.step with
  | bindParams => exact paramsStep_leaves invocation call machine nested stored.own stored
  | bindInstance => exact instanceStep_leaves invocation call machine nested stored.own stored
  | acquireGuard => exact guardStep_leaves invocation call machine nested stored.own stored
  | runBody => exact bodyStep_leaves invocation call machine nested stored.own stored

theorem entered_stored (stored : frame.Stored exact) :
    (entered invocation frame).2.Stored exact := by
  unfold entered
  split
  · exact stored
  · exact Frame.stored_leaf nofun

/-- Whatever a call is given, what it leaves to go on with is stored if what it went on with was. -/
theorem run_leaves (code : Code) (context : ContextId) (depth : Nat) (stored : frame.Stored exact) :
    (run code context depth invocation frame machine).1.Leaves exact fun _ => True := by
  induction depth generalizing invocation frame machine with
  | zero => trivial
  | succ depth ih =>
      have stored := entered_stored invocation stored
      unfold run
      generalize entered invocation frame = entered at stored ⊢
      obtain ⟨call, frame⟩ := entered
      let activation : Activation :=
        ⟨code, context, invocation.function.program, run code context depth⟩
      have left := @steps_leaves exact activation invocation call frame machine
        (fun invocation frame machine stored => ih invocation machine stored) stored
      dsimp only
      generalize steps _ _ _ _ _ = ended at left ⊢
      obtain ⟨progress, after⟩ := ended
      cases progress <;> exact left

end

theorem Effects.stored {code : Code} {context : ContextId} {world changed : World}
    (effects : Effects code context world changed)
    (stored : world.heap.All (Object.Stored exact)) : changed.heap.All (Object.Stored exact) := by
  induction effects with
  | refl => exact stored
  | tail _ effect ih =>
      cases effect with
      | stored handle object name field value written live found converted =>
          refine Heap.update_all ih fun other held => ?_
          rw [live] at held
          cases held
          have converts : ∀ old,
              List.find? (fun field => field.name = name) object.fields = some old →
                value.convert? old.type = some written := by
            intro old first
            rw [Object.field?, first] at found
            cases found
            exact converted
          exact (ih.get? live).updateFirst converts
      | allocated className fields members =>
          exact Heap.allocate_all ih (Object.stored_made members)
      | bound | locked | unlocked | kept => exact ih

end

end ScriptEngine
