import ScriptEngine.Invocation
import ScriptEngine.Proofs.Objects
import ScriptEngine.Proofs.Typing
import Mathlib.Data.List.Induction
/-! The variables of a running call against the names its body was compiled with. The locals that are
declared so far are there in the order of their identities, each once; in a method the variables of
its object point to it. -/

namespace ScriptEngine

namespace Variables

/-- The variables that a body knows by their identities, in the order they came into being. -/
def locals (vars : Variables) : List (VarId × String × DataType) :=
  vars.filterMap fun var => match var.binding with
    | .var id => some (id, var.name, var.type)
    | .unbound | .reserved _ => none

def Declares (vars : Variables) (locals : Locals) : Prop :=
  vars.locals = locals.mapIdx fun place entry => (⟨place⟩, entry)

def Points (vars : Variables) (realm : Realm) (name : Reserved) (className : String) : Prop :=
  ∃ var handle, vars.find? (.reserved name) = some var ∧ var.value = .object handle ∧
    realm.Refers handle className

structure Hosts (vars : Variables) (realm : Realm) (owner : String) : Prop where
  contained : realm.classes.contains owner = true
  this : vars.Points realm .this owner
  super : ∀ parent, realm.classes.parent? owner = some parent → vars.Points realm .super parent

section

variable {vars more : Variables} {locals : Locals} {binding : Binding}

theorem find?_eq (bound : binding ≠ .unbound) :
    vars.find? binding = (vars.filter fun var => var.binding = binding).head? := by
  rw [find?, if_neg bound, List.head?_filter]

theorem locals_append (vars more : Variables) :
    Variables.locals (vars ++ more) = vars.locals ++ more.locals := by
  simp [locals]

theorem locals_local {var : Variable} {id : VarId} (bound : var.binding = .var id) :
    Variables.locals [var] = [(id, var.name, var.type)] := by
  simp [locals, bound]

theorem filter_locals (vars : Variables) (id : VarId) :
    (vars.filter fun var => var.binding = .var id).map (fun var => (id, var.name, var.type)) =
      vars.locals.filter fun entry => entry.1 = id := by
  induction vars with
  | nil => rfl
  | cons var rest ih =>
      rw [show var :: rest = [var] ++ rest from rfl, locals_append, List.filter_append,
        List.map_append, List.filter_append, ih]
      congr 1
      cases bound : var.binding with
      | var other =>
          rw [locals_local bound]
          by_cases same : other = id <;> simp [bound, same]
      | unbound | reserved => simp [locals, bound]

theorem filter_mapIdx (locals : Locals) (id : VarId) :
    (locals.mapIdx fun place entry => ((⟨place⟩ : VarId), entry)).filter (fun entry => entry.1 = id) =
      (locals[id.number]?.map fun entry => (id, entry)).toList := by
  induction locals using List.reverseRecOn with
  | nil => rfl
  | append_singleton before entry ih =>
      rw [List.mapIdx_concat, List.filter_append, ih]
      rcases Nat.lt_trichotomy id.number before.length with inside | last | outside
      · have different : (⟨before.length⟩ : VarId) ≠ id := by
          rintro rfl
          exact Nat.lt_irrefl _ inside
        simp [List.getElem?_append_left inside, different]
      · have same : (⟨before.length⟩ : VarId) = id := by
          rw [← last]
        simp [← same]
      · have different : (⟨before.length⟩ : VarId) ≠ id := by
          rintro rfl
          exact Nat.lt_irrefl _ outside
        have absent : (before ++ [entry])[id.number]? = none := by
          rw [List.getElem?_eq_none_iff, List.length_append]
          exact outside
        simp [absent, List.getElem?_eq_none_iff.mpr (Nat.le_of_lt outside), different]

theorem Declares.only (declares : vars.Declares locals) {id : VarId} {name : String}
    {type : DataType} (declared : locals[id.number]? = some (name, type)) :
    ∃ var, (vars.filter fun var => var.binding = .var id) = [var] ∧ var.name = name ∧
      var.type = type := by
  have held := filter_locals vars id
  rw [declares, filter_mapIdx, declared, Option.map_some, Option.toList_some] at held
  obtain ⟨var, only, same⟩ := List.map_eq_singleton_iff.mp held
  simp only [Prod.mk.injEq, true_and] at same
  exact ⟨var, only, same.1, same.2⟩

theorem Declares.find? (declares : vars.Declares locals) {id : VarId} {name : String}
    {type : DataType} (declared : locals[id.number]? = some (name, type)) :
    ∃ var, vars.find? (.var id) = some var ∧ var.type = type := by
  obtain ⟨var, only, _, typed⟩ := declares.only declared
  exact ⟨var, by rw [find?_eq Binding.noConfusion, only]; rfl, typed⟩

theorem Declares.concat (declares : vars.Declares locals) {var : Variable}
    (bound : var.binding = .var ⟨locals.length⟩) :
    Declares (vars ++ [var]) (locals ++ [(var.name, var.type)]) := by
  rw [Declares, locals_append, locals_local bound, List.mapIdx_concat, declares]

theorem Declares.append (declares : vars.Declares locals) (unknown : more.locals = []) :
    Declares (vars ++ more) locals := by
  rw [Declares, locals_append, unknown, List.append_nil, declares]

theorem locals_updateFirst (wanted : Variable → Bool) (value : Value) (vars : Variables) :
    Variables.locals (updateFirst wanted (fun var => var.set value) vars) = vars.locals := by
  induction vars with
  | nil => rfl
  | cons var rest ih =>
      rw [updateFirst]
      split
      · rfl
      · rw [show var :: updateFirst wanted (fun var => var.set value) rest =
            [var] ++ updateFirst wanted (fun var => var.set value) rest from rfl,
          show var :: rest = [var] ++ rest from rfl, locals_append, locals_append, ih]

theorem Declares.update (declares : vars.Declares locals) (binding : Binding) (value : Value) :
    Declares (vars.update binding fun var => var.set value) locals := by
  unfold Variables.update
  split
  · exact declares
  · rw [Declares, locals_updateFirst, declares]

theorem find?_updateFirst (wanted : Variable → Bool) (value : Value)
    (apart : ∀ var : Variable, var.binding = binding → wanted var = false) (vars : Variables) :
    List.find? (fun var => decide (var.binding = binding))
        (updateFirst wanted (fun var => var.set value) vars) =
      List.find? (fun var => decide (var.binding = binding)) vars := by
  induction vars with
  | nil => rfl
  | cons var rest ih =>
      rw [updateFirst]
      split
      · rename_i found
        have different : var.binding ≠ binding := by
          intro same
          rw [apart var same] at found
          cases found
        have still : (var.set value).binding ≠ binding := different
        simp only [List.find?_cons, different, still, decide_false]
      · rw [List.find?_cons, List.find?_cons, ih]

theorem find?_update_local (id : VarId) (value : Value) (name : Reserved) :
    (vars.update (.var id) fun var => var.set value).find? (.reserved name) =
      vars.find? (.reserved name) := by
  rw [Variables.update, if_neg Binding.noConfusion, Variables.find?, Variables.find?,
    if_neg Binding.noConfusion, if_neg Binding.noConfusion]
  refine find?_updateFirst _ value (fun var bound => ?_) vars
  simp [bound]

theorem mem_updateFirst {wanted : Variable → Bool} {change : Variable → Variable}
    {var : Variable} (among : var ∈ updateFirst wanted change vars) :
    var ∈ vars ∨ ∃ old, List.find? wanted vars = some old ∧ var = change old := by
  induction vars with
  | nil => cases among
  | cons first rest ih =>
      rw [updateFirst] at among
      split at among
      · rename_i found
        rcases List.mem_cons.mp among with rfl | among
        · exact Or.inr ⟨first, List.find?_cons_of_pos found, rfl⟩
        · exact Or.inl (List.mem_cons_of_mem _ among)
      · rename_i missed
        rcases List.mem_cons.mp among with rfl | among
        · exact Or.inl (List.mem_cons_self ..)
        · rcases ih among with kept | ⟨old, held, same⟩
          · exact Or.inl (List.mem_cons_of_mem _ kept)
          · refine Or.inr ⟨old, ?_, same⟩
            rw [List.find?_cons_of_neg missed]
            exact held

theorem mem_update {change : Variable → Variable} {var : Variable}
    (among : var ∈ vars.update binding change) :
    var ∈ vars ∨ ∃ old, vars.find? binding = some old ∧ var = change old := by
  unfold Variables.update at among
  split at among
  · exact Or.inl among
  · rename_i bound
    rw [Variables.find?, if_neg bound]
    exact mem_updateFirst among

end

section

variable {vars more : Variables} {realm after : Realm} {owner className : String}
  {name : Reserved}

theorem Points.later (points : vars.Points realm name className) (leads : realm.Leads after) :
    vars.Points after name className := by
  obtain ⟨var, handle, found, value, refers⟩ := points
  exact ⟨var, handle, found, value, refers.later leads⟩

theorem Points.congr (points : vars.Points realm name className)
    (same : more.find? (.reserved name) = vars.find? (.reserved name)) :
    more.Points realm name className := by
  obtain ⟨var, handle, found, value, refers⟩ := points
  exact ⟨var, handle, same.trans found, value, refers⟩

theorem Points.this? (points : vars.Points realm .this className) :
    ∃ handle, vars.this? = some handle ∧ realm.Refers handle className := by
  obtain ⟨var, handle, found, value, refers⟩ := points
  refine ⟨handle, ?_, refers⟩
  rw [Variables.this?, found, Option.bind_some, value]
  rfl

theorem find?_append {name : Reserved} {var : Variable}
    (found : vars.find? (.reserved name) = some var) (more : Variables) :
    Variables.find? (vars ++ more) (.reserved name) = some var := by
  rw [Variables.find?, if_neg Binding.noConfusion] at found ⊢
  rw [List.find?_append, found]
  rfl

theorem Hosts.later (hosts : vars.Hosts realm owner) (leads : realm.Leads after) :
    vars.Hosts after owner where
  contained := leads.classes.contains hosts.contained
  this := hosts.this.later leads
  super := fun parent named =>
    (hosts.super parent ((leads.classes.parent? hosts.contained).symm.trans named)).later leads

theorem Hosts.append (hosts : vars.Hosts realm owner) (more : Variables) :
    Hosts (vars ++ more) realm owner where
  contained := hosts.contained
  this := by
    obtain ⟨var, handle, found, value, refers⟩ := hosts.this
    exact ⟨var, handle, find?_append found more, value, refers⟩
  super := by
    intro parent named
    obtain ⟨var, handle, found, value, refers⟩ := hosts.super parent named
    exact ⟨var, handle, find?_append found more, value, refers⟩

theorem Hosts.update (hosts : vars.Hosts realm owner) (id : VarId) (value : Value) :
    Hosts (vars.update (.var id) fun var => var.set value) realm owner where
  contained := hosts.contained
  this := hosts.this.congr (find?_update_local id value .this)
  super := fun parent named =>
    (hosts.super parent named).congr (find?_update_local id value .super)

theorem locals_reservedVariables (code : Code) (owner : String) (handle : Handle) :
    (Invocation.reservedVariables code owner handle).locals = [] := by
  unfold Invocation.reservedVariables
  cases code.classes.parent? owner <;> rfl

theorem hosts_reservedVariables {code : Code} {heap : Heap} {handle : Handle}
    (founded : ClassTable.Founded code.classes.classes)
    (contained : code.classes.contains owner = true)
    (refers : Realm.Refers ⟨code.classes, heap⟩ handle owner)
    (free : ∀ name, vars.find? (.reserved name) = none) :
    Hosts (vars ++ Invocation.reservedVariables code owner handle) ⟨code.classes, heap⟩ owner := by
  have behind : ∀ name, Variables.find? (vars ++ Invocation.reservedVariables code owner handle)
      (.reserved name) =
        (Invocation.reservedVariables code owner handle).find? (.reserved name) := by
    intro name
    have missing := free name
    rw [Variables.find?, if_neg Binding.noConfusion] at missing ⊢
    rw [List.find?_append, missing]
    rfl
  refine ⟨contained, ⟨_, handle, behind .this, rfl, refers⟩, fun parent named => ?_⟩
  refine ⟨(Variable.pointer "super" parent handle).bind (.reserved .super), handle, ?_, rfl,
    refers.base founded (ClassTable.derives_parent founded named)⟩
  rw [behind, Invocation.reservedVariables, named]
  rfl

end

end Variables

end ScriptEngine
