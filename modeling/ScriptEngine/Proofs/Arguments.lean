import ScriptEngine.Proofs.Overriding
/-! Arguments that an overload is chosen for. The search compares types and a call stores values; what
the search accepts can be stored, so a call that is chosen for its arguments gets a variable for each
of its parameters. -/

namespace ScriptEngine

/-- Whether a variable holds a value that one of its type goes on holding as it is. -/
def Variable.Fits (var : Variable) : Prop :=
  var.value.convert? var.type = some var.value

/-- The variable that a call has for a parameter: the argument in its place, as the parameter stores
it. An object stays the same one, of a class that derives from that of the parameter. -/
structure Param.Receives (hierarchy : Hierarchy) (param : Param) (place : Nat) (arg var : Variable) :
    Prop where
  name : var.name = param.name
  type : var.type = param.type
  binding : var.binding = .var ⟨place⟩
  value : arg.value.convert? param.type = some var.value
  fits : var.Fits
  object : ∀ handle, var.value = .object handle → arg.value = .object handle ∧
    ∃ derived base, arg.type.className? = some derived ∧ param.type.className? = some base ∧
      hierarchy derived base = true

namespace ParamList

variable {hierarchy : Hierarchy} {param : Param} {params : List Param} {arg : Variable}
  {args rest vars : Variables} {place : Nat}

theorem bindParam_accepted (given : args[place]? = some arg)
    (accepted : param.type.accepts hierarchy arg.type = true) (fits : arg.Fits) :
    ∃ var, bindParam args place param = .ok var ∧ param.Receives hierarchy place arg var := by
  obtain ⟨stored, converted, object⟩ := Value.convert?_of_accepts accepted fits
  refine ⟨(Variable.holding param.name param.type stored).bind (.var ⟨place⟩), ?_, ?_⟩
  · rw [bindParam, given, Option.bind_some, converted]
  · exact ⟨rfl, rfl, rfl, converted, Value.convert?_convert? converted, object⟩

theorem bindFrom_accepted
    (accepted : List.Forall₂
      (fun param arg => param.type.accepts hierarchy arg.type = true) params rest)
    (fits : ∀ arg ∈ rest, arg.Fits) :
    ∀ (place : Nat) (vars : Variables), args.drop place = rest →
      ∃ bound, bindFrom args place vars params = (vars ++ bound, none) ∧
        bound.length = params.length ∧ ∀ offset (param : Param), params[offset]? = some param →
          ∃ arg var, args[place + offset]? = some arg ∧ bound[offset]? = some var ∧
            param.Receives hierarchy (place + offset) arg var := by
  induction accepted with
  | nil =>
      intro place vars _
      exact ⟨[], by rw [bindFrom, List.append_nil], rfl, nofun⟩
  | @cons param arg params rest first _ ih =>
      intro place vars ahead
      have given : args[place]? = some arg := by
        rw [← Nat.add_zero place, ← List.getElem?_drop, ahead, List.getElem?_cons_zero]
      obtain ⟨var, made, receives⟩ :=
        bindParam_accepted given first (fits arg (List.mem_cons_self ..))
      have behind : args.drop (place + 1) = rest := by
        rw [← List.drop_drop, ahead, List.drop_one, List.tail_cons]
      obtain ⟨bound, done, length, each⟩ :=
        ih (fun other among => fits other (List.mem_cons_of_mem _ among)) (place + 1)
          (vars ++ [var]) behind
      refine ⟨var :: bound, ?_, by rw [List.length_cons, List.length_cons, length], ?_⟩
      · rw [bindFrom, made]
        exact done.trans (by rw [List.append_assoc, List.singleton_append])
      · rintro (_ | offset) other found
        · cases found
          exact ⟨arg, var, given, rfl, receives⟩
        · have shifted : place + 1 + offset = place + (offset + 1) := by omega
          rw [← shifted]
          exact each offset other found

/-- Arguments that fit their own types and that an overload can be chosen for become its parameters:
one variable for each, in order, behind the variables that are there already. -/
theorem accepted_arguments_bind (hierarchy : Hierarchy) (list : ParamList) (args : Variables)
    (cost : Nat)
    (chosen : Score.of hierarchy list.types (args.map Variable.type) = .distance cost)
    (fits : ∀ arg ∈ args, arg.Fits) (vars : Variables) :
    ∃ bound, list.bind args vars = (vars ++ bound, none) ∧
      bound.length = list.params.length ∧ ∀ place (param : Param), list.params[place]? = some param →
        ∃ arg var, args[place]? = some arg ∧ bound[place]? = some var ∧
          param.Receives hierarchy place arg var := by
  have accepted := Score.of_distance chosen
  rw [types, List.forall₂_map_left_iff, List.forall₂_map_right_iff] at accepted
  simpa only [Nat.zero_add, ParamList.bind] using
    bindFrom_accepted accepted fits 0 vars (List.drop_zero (l := args))

def depot : ClassTable := ⟨[{ name := "Tank", parent := some "Robot" }, { name := "Robot" }]⟩

theorem accepted_arguments_bind_of_depot :
    let list : ParamList := ⟨[⟨"count", .ofKind .byte, .nowhere⟩, ⟨"speed", .float, .nowhere⟩,
      ⟨"robot", .object "Robot", .nowhere⟩, ⟨"cargo", .arrayOf .int, .nowhere⟩], .nowhere⟩
    let args : Variables := [.holding "arg" .int (.int 300), .holding "arg" .double (.float 0.1),
      .holding "arg" (.object "Tank") (.object ⟨2, 0⟩), .holding "arg" .null .null]
    Score.of depot.derives list.types (args.map Variable.type) = .distance 50 ∧
    (∀ arg ∈ args, arg.Fits) ∧
    ∃ bound, list.bind args [.new "before" .int] = ([.new "before" .int] ++ bound, none) ∧
      bound.length = list.params.length ∧
      ∀ place (param : Param), list.params[place]? = some param →
        ∃ arg var, args[place]? = some arg ∧ bound[place]? = some var ∧
          param.Receives depot.derives place arg var := by
  intro list args
  have chosen : Score.of depot.derives list.types (args.map Variable.type) = .distance 50 := by
    decide
  have fits : ∀ arg ∈ args, arg.Fits := by
    intro arg among
    simp only [args, List.mem_cons, List.not_mem_nil, or_false] at among
    rcases among with rfl | rfl | rfl | rfl <;> rfl
  exact ⟨chosen, fits, accepted_arguments_bind depot.derives list args 50 chosen fits _⟩

end ParamList

end ScriptEngine
