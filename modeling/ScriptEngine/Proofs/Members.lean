import ScriptEngine.Compiler
import ScriptEngine.Proofs.Hierarchy
import ScriptEngine.Proofs.Objects
/-! What the name of a member means. A body and an object list the members of a class alike, those of
the oldest ancestor first; the compiler takes the last one of a name and a running call the first. -/

namespace ScriptEngine

namespace Scope

variable (scope : Scope) (name : String)

theorem lookup_add (visible : Visible) : (scope.add visible).lookup name =
    if visible.name = name then some visible else scope.lookup name := by
  rw [lookup, visible_add, List.find?_cons]
  by_cases same : visible.name = name
  · simp only [same, decide_true, if_true]
  · simp only [same, decide_false, if_false]
    rfl

theorem lookup_addMember (member : String) (type : DataType) :
    (scope.addMember member type).lookup name =
      if member = name then some ⟨member, type, .member member⟩ else scope.lookup name :=
  scope.lookup_add name _

theorem lookup_addReserved (reserved : Reserved) (type : DataType) :
    (scope.addReserved reserved type).lookup name =
      if reserved.name = name then some ⟨reserved.name, type, .reserved reserved⟩
      else scope.lookup name :=
  scope.lookup_add name _

theorem lookup_addMembers (fields : Variables) (scope : Scope) :
    (fields.foldl (fun scope member => scope.addMember member.name member.type) scope).lookup name =
      match (fields.filter fun field => field.name = name).getLast? with
      | some last => some ⟨name, last.type, .member name⟩
      | none => scope.lookup name := by
  induction fields generalizing scope with
  | nil => rfl
  | cons field rest ih =>
      rw [List.foldl_cons, ih, lookup_addMember, List.filter_cons]
      by_cases same : field.name = name
      · simp only [same, decide_true, if_true, List.getLast?_cons]
        cases (rest.filter fun field => field.name = name).getLast? <;> rfl
      · simp only [same, decide_false, if_false, Bool.false_eq_true]

end Scope

namespace ClassTable

variable {table : ClassTable} {owner derived name : String}

/-- The fields of one name that a class and its ancestors declare, the oldest ancestor first. -/
def declared (table : ClassTable) (owner name : String) : List FieldDecl :=
  ((table.chain owner).reverse.flatMap ClassDecl.fields).filter fun field => field.name = name

theorem members_declared (table : ClassTable) (owner name : String) :
    ((table.members? owner).getD []).filter (fun field => field.name = name) =
      (table.declared owner name).map member := by
  unfold members?
  split
  · rw [Option.getD_some, declared, ← List.map_flatMap, List.filter_map]
    rfl
  · rename_i unknown
    have rootless : table.chain owner = [] := by
      rw [contains, get?_eq_head, Option.isSome_iff_ne_none, not_not,
        List.head?_eq_none_iff] at unknown
      exact unknown
    rw [declared, rootless]
    rfl

theorem contains_of_declared {field : FieldDecl} (among : field ∈ table.declared owner name) :
    table.contains owner = true := by
  obtain ⟨decl, above, _⟩ := List.mem_flatMap.mp (List.mem_filter.mp among).1
  rw [contains, get?_eq_head, Option.isSome_iff_ne_none, Ne, List.head?_eq_none_iff]
  exact List.ne_nil_of_mem (List.mem_reverse.mp above)

theorem declared_derived (founded : Founded table.classes)
    (derives : table.derives derived owner = true) :
    table.declared owner name <+: table.declared derived name := by
  obtain ⟨decl, among, rfl⟩ := derives_iff.mp derives
  obtain ⟨nearer, chained⟩ := ancestry_suffix founded among
  have split : table.chain derived = nearer ++ table.chain decl.name := chained.symm
  rw [declared, declared, split, List.reverse_append, List.flatMap_append, List.filter_append]
  exact List.prefix_append ..

theorem Grows.declared_eq {newer : ClassTable} (grows : table.Grows newer)
    (known : table.contains owner = true) (name : String) :
    newer.declared owner name = table.declared owner name := by
  rw [declared, declared, grows owner known]

end ClassTable

theorem Object.IsBuilt.field?_type {classes : ClassTable} {object : Object} (name : String)
    (built : object.IsBuilt classes) : (object.field? name).map Variable.type =
      (classes.declared object.className name).head?.map FieldDecl.type := by
  have found : ∀ fields : List Variable,
      (fields.find? fun field => field.name = name).map Variable.type =
        ((fields.map fun field => (field.name, field.type)).find? fun entry => entry.1 = name).map
          Prod.snd := by
    intro fields
    rw [List.find?_map, Option.map_map]
    rfl
  obtain ⟨fields, members, same⟩ := built
  have listed := classes.members_declared object.className name
  rw [members, Option.getD_some] at listed
  rw [Object.field?, found, same, ← found, ← List.head?_filter, listed, List.head?_map,
    Option.map_map]
  rfl

namespace Compiler

theorem ownerScope_member {table : ClassTable} {owner name : String} {returns type : DataType} :
    (ownerScope table { returns } (some owner)).lookup name = some ⟨name, type, .member name⟩ ↔
      ∃ last, (table.declared owner name).getLast? = some last ∧ last.type = type := by
  have bare : Scope.lookup { returns } name ≠ some ⟨name, type, .member name⟩ := nofun
  have reserved : ∀ (scope : Scope) (reserved : Reserved) (own : DataType),
      scope.lookup name ≠ some ⟨name, type, .member name⟩ →
        (scope.addReserved reserved own).lookup name ≠ some ⟨name, type, .member name⟩ := by
    intro scope reserved own other
    rw [Scope.lookup_addReserved]
    split
    · nofun
    · exact other
  simp only [ownerScope, Scope.lookup_addMembers, ClassTable.members_declared, List.getLast?_map]
  cases last : (table.declared owner name).getLast? with
  | some last => simp [ClassTable.member, Variable.new]
  | none =>
      refine iff_of_false ?_ (fun ⟨_, absent, _⟩ => nomatch absent)
      cases table.parent? owner with
      | none => exact reserved _ _ _ bare
      | some parent => exact reserved _ _ _ (reserved _ _ _ bare)

end Compiler

/-- A member of a class that is visible in a body was declared, perhaps more than once, by the class
and its ancestors. The compiler gives it the type that was declared last; an object of the class, or of
one that derives from it, has a field of the type that was declared first. -/
theorem members_by_order (requests more : List ClassDecl) {owner name : String}
    {returns type : DataType} {object : Object}
    (visible : (Compiler.ownerScope (ClassTable.after requests) { returns } (some owner)).lookup
      name = some ⟨name, type, .member name⟩)
    (derives : (ClassTable.after (requests ++ more)).derives object.className owner = true)
    (built : object.IsBuilt (ClassTable.after (requests ++ more))) :
    ∃ first last field,
      ((ClassTable.after requests).declared owner name).head? = some first ∧
      ((ClassTable.after requests).declared owner name).getLast? = some last ∧
      object.field? name = some field ∧ field.type = first.type ∧ type = last.type := by
  obtain ⟨last, declared, rfl⟩ := Compiler.ownerScope_member.mp visible
  have known := ClassTable.contains_of_declared (List.mem_of_getLast? declared)
  obtain ⟨nearer, split⟩ : (ClassTable.after (requests ++ more)).declared owner name <+:
      (ClassTable.after (requests ++ more)).declared object.className name :=
    ClassTable.declared_derived (ClassTable.after_founded _) derives
  rw [(ClassTable.after_grows requests more).declared_eq known] at split
  have type := built.field?_type name
  rw [← split] at type
  cases fields : (ClassTable.after requests).declared owner name with
  | nil =>
      rw [fields] at declared
      cases declared
  | cons first others =>
      rw [fields, List.cons_append, List.head?_cons, Option.map_some] at type
      obtain ⟨field, found, same⟩ := Option.map_eq_some_iff.mp type
      exact ⟨first, last, field, rfl, fields ▸ declared, found, same, rfl⟩

/-- A class that declares a member of its parent's name again, with another type. -/
def redeclared : List ClassDecl :=
  [{ name := "Robot", fields := [⟨"id", .long, false⟩, ⟨"code", .int, false⟩] },
    { name := "Tank", parent := some "Robot", fields := [⟨"code", .string, false⟩] }]

theorem members_by_order_of_redeclared :
    let classes := ClassTable.after redeclared
    let later := ClassTable.after (redeclared ++ [{ name := "Truck", parent := some "Tank" }])
    ∃ fields, later.members? "Truck" = some fields ∧
    (Compiler.ownerScope classes { returns := .string } (some "Tank")).lookup "code" =
      some ⟨"code", .string, .member "code"⟩ ∧
    later.derives "Truck" "Tank" = true ∧
    Object.IsBuilt later ⟨"Truck", fields⟩ ∧
    ∃ first last field,
      (classes.declared "Tank" "code").head? = some first ∧
      (classes.declared "Tank" "code").getLast? = some last ∧
      Object.field? ⟨"Truck", fields⟩ "code" = some field ∧ field.type = first.type ∧
      DataType.string = last.type := by
  intro classes later
  have visible : (Compiler.ownerScope classes { returns := .string } (some "Tank")).lookup "code" =
      some ⟨"code", .string, .member "code"⟩ := by
    decide
  have derives : later.derives "Truck" "Tank" = true := by
    decide
  obtain ⟨fields, members⟩ : ∃ fields, later.members? "Truck" = some fields := ⟨_, rfl⟩
  have built : Object.IsBuilt later ⟨"Truck", fields⟩ := .made members
  exact ⟨fields, members, visible, derives, built,
    members_by_order redeclared [{ name := "Truck", parent := some "Tank" }] visible derives built⟩

/-- What is a text to the methods of a tank is a number in the tank. -/
theorem redeclared_member_differs :
    let classes := ClassTable.after redeclared
    ∃ fields field, classes.members? "Tank" = some fields ∧
    (Compiler.ownerScope classes { returns := .string } (some "Tank")).lookup "code" =
      some ⟨"code", .string, .member "code"⟩ ∧
    Object.field? ⟨"Tank", fields⟩ "code" = some field ∧ field.type = .int :=
  ⟨_, _, rfl, by decide, rfl, rfl⟩

end ScriptEngine
