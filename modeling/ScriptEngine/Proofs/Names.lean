import ScriptEngine.Proofs.Effects
/-! Names and bindings of variables. The body of a function finds its variables by their bindings; a
variable that lost its binding is bound again by its name. Both agree as long as every variable a
call makes is bound to what its name stands for in the function. -/

namespace ScriptEngine

mutual

def Stmt.declared : Stmt → List (VarId × String)
  | .declare _ id name _ _ => [(id, name)]
  | .block _ stmts => Stmt.declaredIn stmts
  | .return .. | .wait .. | .assign .. | .expr _ => []

def Stmt.declaredIn : List Stmt → List (VarId × String)
  | [] => []
  | first :: rest => first.declared ++ Stmt.declaredIn rest

end

namespace Function

def binding (function : Function) (name : String) : Binding :=
  match function.localId? name, Reserved.ofName? name with
  | some id, _ => .var id
  | none, some reserved => if function.owner.isSome then .reserved reserved else .unbound
  | none, none => .unbound

def Binds (function : Function) (vars : Variables) : Prop :=
  ∀ var ∈ vars, var.binding = function.binding var.name

/-- The identities that the body of a function uses are those of its table of locals, and no local
has the name of its object, whose class is there. -/
structure Coherent (function : Function) (classes : ClassTable) : Prop where
  params : ∀ place param, function.params.params[place]? = some param →
    function.localId? param.name = some ⟨place⟩
  declared : ∀ entry ∈ Stmt.declaredIn function.body.stmts,
    function.localId? entry.2 = some entry.1
  this : ∀ owner, function.owner = some owner → function.localId? "this" = none
  super : ∀ owner parent, function.owner = some owner → classes.parent? owner = some parent →
    function.localId? "super" = none
  owned : ∀ owner, function.owner = some owner → classes.contains owner = true
  /-- What is declared in the block of a class is a method of that class. -/
  enclosed : ∀ className, function.signature.classBlock = some className →
    function.owner = some className

theorem Coherent.within {function : Function} {classes later : ClassTable}
    (coherent : function.Coherent classes) (within : classes.Within later) :
    function.Coherent later where
  params := coherent.params
  declared := coherent.declared
  this := coherent.this
  super := by
    intro owner parent owned known
    obtain ⟨decl, found⟩ := Option.isSome_iff_exists.mp (coherent.owned owner owned)
    refine coherent.super owner parent owned ?_
    rw [ClassTable.parent?, found]
    rw [ClassTable.parent?, within owner decl found] at known
    exact known
  owned := by
    intro owner owned
    obtain ⟨decl, found⟩ := Option.isSome_iff_exists.mp (coherent.owned owner owned)
    rw [ClassTable.contains, within owner decl found]
    rfl
  enclosed := coherent.enclosed

theorem Coherent.isDispatched {function : Function} {classes : ClassTable}
    (coherent : function.Coherent classes) (enclosed : function.signature.classBlock.isSome = true) :
    function.signature.callKind.isDispatched = true := by
  obtain ⟨className, block⟩ := Option.isSome_iff_exists.mp enclosed
  have owned : function.signature.header.owner = some className :=
    coherent.enclosed className block
  simp [Signature.callKind, owned, block, CallKind.isDispatched]

theorem binding_of_local {function : Function} {name : String} {id : VarId}
    (known : function.localId? name = some id) : function.binding name = .var id := by
  simp only [binding, known]

theorem binds_append {function : Function} {vars more : Variables} (binds : function.Binds vars)
    (also : function.Binds more) : function.Binds (vars ++ more) := by
  intro var among
  rcases List.mem_append.mp among with first | second
  · exact binds var first
  · exact also var second

theorem binds_update {function : Function} {vars : Variables} (binds : function.Binds vars)
    (binding : Binding) (value : Value) :
    function.Binds (vars.update binding fun var => var.set value) := by
  have first : ∀ (wanted : Variable → Bool) (vars : Variables), function.Binds vars →
      function.Binds (Variables.updateFirst wanted (fun var => var.set value) vars) := by
    intro wanted vars
    induction vars with
    | nil => exact fun binds => binds
    | cons head rest ih =>
        intro binds
        have behind : function.Binds rest := fun var among =>
          binds var (List.mem_cons_of_mem _ among)
        simp only [Variables.updateFirst]
        split
        · intro var among
          rcases List.mem_cons.mp among with rfl | among
          · exact binds head (List.mem_cons_self ..)
          · exact behind var among
        · intro var among
          rcases List.mem_cons.mp among with rfl | among
          · exact binds var (List.mem_cons_self ..)
          · exact ih behind var among
  unfold Variables.update
  split
  · exact binds
  · exact first _ vars binds

end Function

section

variable {function : Function} {classes : ClassTable}

theorem bindFrom_binds {args : Variables} {params : List Param} :
    ∀ {place : Nat} {vars : Variables}, function.Binds vars →
      (∀ offset param, params[offset]? = some param →
        function.localId? param.name = some ⟨place + offset⟩) →
      function.Binds (ParamList.bindFrom args place vars params).1 := by
  induction params with
  | nil =>
      intro place vars binds _
      exact binds
  | cons param rest ih =>
      intro place vars binds known
      simp only [ParamList.bindFrom]
      cases bound : ParamList.bindParam args place param with
      | error error => exact binds
      | ok var =>
          refine ih (Function.binds_append binds ?_) ?_
          · intro other among
            obtain rfl := List.mem_singleton.mp among
            unfold ParamList.bindParam at bound
            split at bound
            · cases bound
              exact (Function.binding_of_local (known 0 param rfl)).symm
            · cases bound
          · intro offset later found
            have shifted := known (offset + 1) later found
            rw [shifted, Nat.add_assoc, Nat.add_comm 1 offset]

theorem bind_binds (coherent : function.Coherent classes) (args : Variables) :
    function.Binds (function.params.bind args []).1 :=
  bindFrom_binds nofun fun offset param found => by
    rw [Nat.zero_add]
    exact coherent.params offset param found

theorem bindInstance_binds {code : Code} {invocation : Invocation} {vars bound : Variables}
    {world after : World} (coherent : invocation.function.Coherent code.classes)
    (binds : invocation.function.Binds vars)
    (done : Invocation.bindInstance code invocation vars world = .ok (bound, after)) :
    invocation.function.Binds bound := by
  rcases bindInstance_cases done with ⟨_, rfl, _⟩ | ⟨owner, handle, owned, rfl, _⟩
  · exact binds
  · refine Function.binds_append binds fun var among => ?_
    unfold Invocation.reservedVariables at among
    rcases List.mem_cons.mp among with rfl | parent
    · simp [Function.binding, Variable.pointer, Variable.bind, Reserved.name, Reserved.ofName?,
        coherent.this owner owned, owned]
    · split at parent
      · rename_i name named
        obtain rfl := List.mem_singleton.mp parent
        simp [Function.binding, Variable.pointer, Variable.bind, Reserved.name,
          Reserved.ofName?, coherent.super owner name owned named, owned]
      · cases parent

theorem writeVariable_binds {heap after : Heap} {vars written : Variables} {target : Target}
    {value : Value} {span : Span} (binds : function.Binds vars)
    (wrote : Evaluation.writeVariable heap vars target value span = .ok (after, written)) :
    function.Binds written := by
  rcases writeVariable_cases wrote with ⟨_, _, _, _, _, _, rfl⟩ | ⟨_, _, _, _, _, _, _, _, _, rfl⟩
  · exact Function.binds_update binds _ _
  · exact binds

theorem evalThen_binds {activation : Activation} {expr : Expr} {frame : Frame} {state : RunState}
    {continueWith : Value → RunState → Progress Completion × RunState}
    (binds : function.Binds state.vars)
    (continued : ∀ value machine,
      function.Binds (continueWith value { state with machine }).2.vars) :
    function.Binds (Evaluation.evalThen activation expr frame state continueWith).2.vars := by
  unfold Evaluation.evalThen
  split
  · exact continued _ _
  · exact binds
  · exact binds

theorem declare_binds {id : VarId} {var : Variable} {state : RunState}
    (binds : function.Binds state.vars) (known : function.localId? var.name = some id) :
    function.Binds (Evaluation.declare id var state).2.vars := by
  refine Function.binds_append binds fun other among => ?_
  obtain rfl := List.mem_singleton.mp among
  exact (Function.binding_of_local known).symm

theorem waitStep_binds {frame : Frame} {state : RunState} {remaining : Nat}
    (binds : function.Binds state.vars) :
    function.Binds (Evaluation.waitStep frame state remaining).2.vars := by
  cases remaining <;> exact binds

theorem assign_binds {target : Target} {span : Span} {value : Value} {state : RunState}
    (binds : function.Binds state.vars) :
    function.Binds (Evaluation.assign target span value state).2.vars := by
  unfold Evaluation.assign
  split
  · rename_i wrote
    exact writeVariable_binds binds wrote
  · exact binds

mutual

theorem execStmt_binds (activation : Activation) :
    ∀ (stmt : Stmt) (frame : Frame) (state : RunState), function.Binds state.vars →
      (∀ entry ∈ stmt.declared, function.localId? entry.2 = some entry.1) →
      function.Binds (Evaluation.execStmt activation stmt frame state).2.vars
  | .block _ stmts, frame, state, binds, known => by
      rw [Evaluation.execStmt]
      exact execStmts_binds activation 0 stmts _ state binds (by simpa [Stmt.declared] using known)
  | .return _ none, _, _, binds, _ => by
      rw [Evaluation.execStmt]
      exact binds
  | .return _ (some expr), frame, state, binds, _ => by
      rw [Evaluation.execStmt]
      exact evalThen_binds binds fun _ _ => binds
  | .wait _ count, frame, state, binds, _ => by
      rw [Evaluation.execStmt]
      split
      · exact waitStep_binds binds
      · exact evalThen_binds binds fun _ _ => waitStep_binds binds
  | .declare _ id name type none, _, state, binds, known => by
      rw [Evaluation.execStmt]
      exact declare_binds binds (known (id, name) (by simp [Stmt.declared]))
  | .declare span id name type (some expr), frame, state, binds, known => by
      rw [Evaluation.execStmt]
      refine evalThen_binds binds fun value machine => ?_
      split
      · exact declare_binds binds (known (id, name) (by simp [Stmt.declared]))
      · exact binds
  | .assign span target expr, frame, state, binds, _ => by
      rw [Evaluation.execStmt]
      exact evalThen_binds binds fun _ _ => assign_binds binds
  | .expr expr, frame, state, binds, _ => by
      rw [Evaluation.execStmt]
      exact evalThen_binds binds fun _ _ => binds

theorem execStmts_binds (activation : Activation) (place : Nat) :
    ∀ (stmts : List Stmt) (frame : Frame) (state : RunState), function.Binds state.vars →
      (∀ entry ∈ Stmt.declaredIn stmts, function.localId? entry.2 = some entry.1) →
      function.Binds (Evaluation.execStmts activation place stmts frame state).2.vars
  | [], _, _, binds, _ => by
      rw [Evaluation.execStmts]
      exact binds
  | first :: rest, frame, state, binds, known => by
      simp only [Stmt.declaredIn, List.mem_append] at known
      have behind := fun entry among => known entry (Or.inr among)
      rw [Evaluation.execStmts]
      split
      · exact execStmts_binds activation (place + 1) rest frame state binds behind
      · have reached := execStmt_binds activation first (frame.child place) state binds
          fun entry among => known entry (Or.inl among)
        generalize Evaluation.execStmt _ _ _ _ = ended at reached ⊢
        obtain ⟨progress, after⟩ := ended
        cases progress with
        | suspended child => exact reached
        | failed error => exact reached
        | done completion =>
            cases completion with
            | next => exact execStmts_binds activation (place + 1) rest _ after reached behind
            | «return» value => exact reached

end

end

end ScriptEngine
