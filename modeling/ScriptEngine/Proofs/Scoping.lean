import ScriptEngine.Proofs.Compiling
import ScriptEngine.Proofs.Members
import ScriptEngine.Proofs.Parsing
/-! The scope of a function under whatever is done to it, step by step. A name that is taken stays
taken, locals are numbered in the order in which they are declared, and behind a block that was
entered and left the same is visible as before it. Reading a body takes such steps. -/

namespace ScriptEngine

namespace Scope

/-- What is done to the scope of a function. -/
inductive Step where
  | reserve (name : Reserved) (type : DataType)
  | member (name : String) (type : DataType)
  | declare (name : String) (type : DataType) (span : Span)
  | enter
  | leave
deriving DecidableEq

namespace Step

def takes? : Step → Option String
  | .reserve name _ => some name.name
  | .declare name _ _ => some name
  | _ => none

def isFlat : Step → Bool
  | .enter => false
  | .leave => false
  | _ => true

def level (depth : Nat) : Step → Nat
  | .enter => depth + 1
  | .leave => depth - 1
  | _ => depth

theorem level_of_flat {step : Step} (flat : step.isFlat) (depth : Nat) :
    level depth step = depth := by
  cases step with
  | enter => cases flat
  | leave => cases flat
  | _ => rfl

end Step

def act (scope : Scope) : Step → Scope
  | .reserve name type => scope.addReserved name type
  | .member name type => scope.addMember name type
  | .declare name type span =>
      match scope.addLocal name type span with
      | .ok (_, later) => later
      | .error _ => scope
  | .enter => scope.pushBlock
  | .leave => scope.popBlock

def run (scope : Scope) (steps : List Step) : Scope := steps.foldl act scope

def grant? (scope : Scope) : Step → Option (VarId × String)
  | .declare name type span =>
      match scope.addLocal name type span with
      | .ok (id, _) => some (id, name)
      | .error _ => none
  | _ => none

/-- The identities that steps give to names, in the order of the steps. -/
def granted (scope : Scope) : List Step → List (VarId × String)
  | [] => []
  | step :: rest => (scope.grant? step).toList ++ (scope.act step).granted rest

/-- A step took the name for a local or for the object of a method, or found it taken for one. -/
def Takes (history : List Step) (name : String) : Prop :=
  ∃ step ∈ history, step.takes? = some name

def depth (history : List Step) : Nat := history.foldl Step.level 0

/-- Steps that leave all blocks they enter, and no other. -/
inductive Nested : List Step → Prop where
  | nil : Nested []
  | flat {step : Step} (flat : step.isFlat) : Nested [step]
  | block {inner : List Step} (nested : Nested inner) : Nested (.enter :: inner ++ [.leave])
  | append {first second : List Step} : Nested first → Nested second → Nested (first ++ second)

inductive Makes (scope : Scope) : Step → Visible → Prop where
  | reserve (name : Reserved) (type : DataType) :
      Makes scope (.reserve name type) ⟨name.name, type, .reserved name⟩
  | member (name : String) (type : DataType) :
      Makes scope (.member name type) ⟨name, type, .member name⟩
  | declare {name : String} {type : DataType} {span : Span} {id : VarId} {later : Scope}
      (added : scope.addLocal name type span = .ok (id, later)) :
      Makes scope (.declare name type span) ⟨name, type, .local id⟩

/-- The same variables are visible, in the same blocks. -/
structure Alike (scope other : Scope) : Prop where
  blocks : scope.blocks = other.blocks
  outer : scope.outer = other.outer

section

variable {scope : Scope}

@[simp]
theorem run_nil : scope.run [] = scope := rfl

@[simp]
theorem run_cons (step : Step) (steps : List Step) :
    scope.run (step :: steps) = (scope.act step).run steps := rfl

@[simp]
theorem run_append (first second : List Step) :
    scope.run (first ++ second) = (scope.run first).run second := List.foldl_append ..

theorem granted_append (first second : List Step) (scope : Scope) :
    scope.granted (first ++ second) = scope.granted first ++ (scope.run first).granted second := by
  induction first generalizing scope with
  | nil => rfl
  | cons step rest ih =>
      rw [List.cons_append, granted, granted, ih, run_cons, List.append_assoc]

theorem granted_block (inner : List Step) :
    scope.granted (.enter :: inner ++ [.leave]) = scope.pushBlock.granted inner := by
  rw [granted_append]
  exact List.append_nil _

theorem depth_append (first second : List Step) :
    depth (first ++ second) = second.foldl Step.level (depth first) := List.foldl_append ..

theorem Alike.lookup {other : Scope} (alike : scope.Alike other) (name : String) :
    scope.lookup name = other.lookup name := by
  rw [Scope.lookup, Scope.lookup, visible, visible, alike.blocks, alike.outer]

end

/-! Names and identities -/

section

variable {scope : Scope} {step : Step} {name : String}

theorem act_declare (scope : Scope) (name : String) (type : DataType) (span : Span) :
    (∃ later, name ∉ scope.taken ∧
      scope.addLocal name type span = .ok (⟨scope.locals.length⟩, later) ∧
      scope.grant? (.declare name type span) = some (⟨scope.locals.length⟩, name) ∧
      scope.act (.declare name type span) = later ∧
      later.locals = scope.locals ++ [name] ∧ later.taken = name :: scope.taken ∧
      later.Alike (scope.add ⟨name, type, .local ⟨scope.locals.length⟩⟩)) ∨
    (name ∈ scope.taken ∧
      scope.addLocal name type span = .error ⟨.redefinedVariable, span, some name⟩ ∧
      scope.grant? (.declare name type span) = none ∧
      scope.act (.declare name type span) = scope) := by
  by_cases taken : name ∈ scope.taken
  · have refused : scope.addLocal name type span = .error _ :=
      addLocal_eq_error_iff.mpr ⟨taken, rfl⟩
    exact .inr ⟨taken, refused, by rw [grant?, refused], by rw [act, refused]⟩
  · have added : scope.addLocal name type span = .ok (_, _) :=
      addLocal_eq_ok_iff.mpr ⟨taken, rfl, rfl⟩
    exact .inl ⟨_, taken, added, by rw [grant?, added], by rw [act, added], rfl, rfl, rfl, rfl⟩

theorem mem_act_taken :
    name ∈ (scope.act step).taken ↔ name ∈ scope.taken ∨ step.takes? = some name := by
  cases step with
  | reserve reserved type =>
      rw [act, addReserved, List.mem_cons, Step.takes?, Option.some.injEq, or_comm, eq_comm]
  | member other type => simp [act, addMember, add_taken, Step.takes?]
  | declare other type span =>
      rw [Step.takes?, Option.some.injEq]
      rcases scope.act_declare other type span with
        ⟨later, _, _, _, done, _, grown, _⟩ | ⟨taken, _, _, same⟩
      · rw [done, grown, List.mem_cons, or_comm, eq_comm]
      · rw [same]
        exact ⟨.inl, fun either => either.elim id fun here => here ▸ taken⟩
  | enter => simp [act, pushBlock, Step.takes?]
  | leave => simp [act, popBlock, Step.takes?]

theorem mem_run_taken (steps : List Step) :
    name ∈ (scope.run steps).taken ↔ name ∈ scope.taken ∨ Takes steps name := by
  induction steps generalizing scope with
  | nil => simp [Takes]
  | cons step rest ih =>
      rw [run_cons, ih, mem_act_taken, or_assoc]
      simp [Takes]

theorem act_locals (scope : Scope) (step : Step) :
    (scope.grant? step = none ∧ (scope.act step).locals = scope.locals) ∨
      ∃ name, scope.grant? step = some (⟨scope.locals.length⟩, name) ∧
        (scope.act step).locals = scope.locals ++ [name] := by
  cases step with
  | reserve reserved type => exact .inl ⟨rfl, add_locals _⟩
  | member other type => exact .inl ⟨rfl, add_locals _⟩
  | declare other type span =>
      rcases scope.act_declare other type span with
        ⟨later, _, _, given, rfl, grown, _⟩ | ⟨_, _, ungranted, same⟩
      · exact .inr ⟨other, given, grown⟩
      · exact .inl ⟨ungranted, congrArg Scope.locals same⟩
  | enter => exact .inl ⟨rfl, rfl⟩
  | leave => exact .inl ⟨rfl, rfl⟩

theorem run_locals (steps : List Step) (scope : Scope) :
    ∃ new, (scope.run steps).locals = scope.locals ++ new ∧
      scope.granted steps = new.mapIdx fun place name => (⟨scope.locals.length + place⟩, name) := by
  induction steps generalizing scope with
  | nil => exact ⟨[], (List.append_nil _).symm, rfl⟩
  | cons step rest ih =>
      obtain ⟨new, listed, numbered⟩ := ih (scope.act step)
      rw [run_cons, listed, granted, numbered]
      rcases scope.act_locals step with ⟨ungranted, same⟩ | ⟨name, given, grown⟩
      · refine ⟨new, by rw [same], ?_⟩
        rw [ungranted, same, Option.toList_none, List.nil_append]
      · refine ⟨name :: new, by rw [grown, List.append_assoc, List.singleton_append], ?_⟩
        rw [given, grown, List.mapIdx_cons, Option.toList_some, List.singleton_append]
        simp only [List.length_append, List.length_singleton, Nat.add_zero, Nat.add_assoc,
          Nat.add_comm 1]

theorem granted_new (returns : DataType) (history : List Step) :
    granted { returns } history =
      (run { returns } history).locals.mapIdx fun place name => (⟨place⟩, name) := by
  obtain ⟨new, listed, numbered⟩ := run_locals history { returns }
  rw [listed, numbered, List.nil_append]
  simp only [List.length_nil, Nat.zero_add]

theorem mem_granted_iff {returns : DataType} {history : List Step} {id : VarId} :
    (id, name) ∈ granted { returns } history ↔
      (run { returns } history).locals[id.number]? = some name := by
  rw [granted_new, List.mem_mapIdx, List.getElem?_eq_some_iff]
  constructor
  · rintro ⟨place, inside, same⟩
    cases same
    exact ⟨inside, rfl⟩
  · rintro ⟨inside, rfl⟩
    exact ⟨id.number, inside, rfl⟩

theorem act_sound (sound : scope.Sound) (step : Step) : (scope.act step).Sound := by
  cases step with
  | reserve reserved type =>
      have listed : (scope.act (.reserve reserved type)).locals = scope.locals := add_locals _
      refine ⟨listed.symm ▸ sound.distinct, fun name among => ?_⟩
      exact List.mem_cons_of_mem _ (sound.taken name (listed ▸ among))
  | member other type => exact (Leads.of_same (add_locals _) (add_taken _)).sound sound
  | declare other type span =>
      rcases scope.act_declare other type span with
        ⟨later, _, added, _, rfl, _⟩ | ⟨_, _, _, same⟩
      · exact (addLocal_leads added).sound sound
      · exact same.symm ▸ sound
  | enter => exact ⟨sound.distinct, sound.taken⟩
  | leave => exact ⟨sound.distinct, sound.taken⟩

theorem run_sound (sound : scope.Sound) (steps : List Step) : (scope.run steps).Sound := by
  induction steps generalizing scope with
  | nil => exact sound
  | cons step rest ih => exact ih (act_sound sound step)

end

/-! Blocks -/

section

variable {scope : Scope} {step : Step} {before inner : List Step}

theorem act_flat (scope : Scope) (flat : step.isFlat) :
    (∃ made, scope.Makes step made ∧ (scope.act step).Alike (scope.add made)) ∨
      (∀ made, ¬ scope.Makes step made) ∧ (scope.act step).Alike scope := by
  cases step with
  | reserve name type => exact .inl ⟨_, .reserve name type, rfl, rfl⟩
  | member name type => exact .inl ⟨_, .member name type, rfl, rfl⟩
  | declare name type span =>
      rcases scope.act_declare name type span with
        ⟨later, _, added, _, rfl, _, _, alike⟩ | ⟨_, refused, _, same⟩
      · exact .inl ⟨_, .declare added, alike⟩
      · refine .inr ⟨fun made makes => ?_, same.symm ▸ ⟨rfl, rfl⟩⟩
        cases makes with
        | declare added => rw [refused] at added; cases added
  | enter => cases flat
  | leave => cases flat

theorem Makes.flat {made : Visible} (makes : scope.Makes step made) : step.isFlat := by
  cases makes <;> rfl

theorem Makes.unique {made other : Visible} (makes : scope.Makes step made)
    (also : scope.Makes step other) : made = other := by
  cases makes with
  | reserve => cases also; rfl
  | member => cases also; rfl
  | declare added =>
      cases also with
      | declare again =>
          rw [added] at again
          cases again
          rfl

theorem act_lookup (scope : Scope) (remains : step = .leave → scope.blocks = []) :
    (∃ made, scope.Makes step made ∧ ∀ name, (scope.act step).lookup name =
      if made.name = name then some made else scope.lookup name) ∨
      (∀ made, ¬ scope.Makes step made) ∧
        ∀ name, (scope.act step).lookup name = scope.lookup name := by
  cases flat : step.isFlat with
  | true =>
      rcases scope.act_flat flat with ⟨made, makes, alike⟩ | ⟨idle, alike⟩
      · exact .inl ⟨made, makes, fun name => (alike.lookup name).trans (scope.lookup_add name made)⟩
      · exact .inr ⟨idle, alike.lookup⟩
  | false =>
      refine .inr ⟨fun made makes => Bool.false_ne_true (flat.symm.trans makes.flat), ?_⟩
      cases step with
      | enter => exact fun _ => rfl
      | leave =>
          have same := remains rfl
          exact Alike.lookup ⟨(congrArg List.tail same).trans same.symm, rfl⟩
      | _ => cases flat

theorem act_blocks_length (scope : Scope) (step : Step) :
    (scope.act step).blocks.length = step.level scope.blocks.length := by
  cases flat : step.isFlat with
  | true =>
      rw [Step.level_of_flat flat]
      rcases scope.act_flat flat with ⟨made, _, alike⟩ | ⟨_, alike⟩
      · rw [alike.blocks, add]
        split
        · rfl
        · rename_i opened
          rw [opened, List.length_cons, List.length_cons]
      · rw [alike.blocks]
  | false =>
      cases step with
      | enter => rfl
      | leave => exact List.length_tail
      | _ => cases flat

theorem run_blocks_length (steps : List Step) (scope : Scope) :
    (scope.run steps).blocks.length = steps.foldl Step.level scope.blocks.length := by
  induction steps generalizing scope with
  | nil => rfl
  | cons step rest ih => rw [run_cons, ih, act_blocks_length, List.foldl_cons]

theorem Nested.level (nested : Nested inner) (depth : Nat) :
    inner.foldl Step.level depth = depth ∧
      ∀ count, depth ≤ (inner.take count).foldl Step.level depth := by
  induction nested generalizing depth with
  | nil => simp
  | @flat step flat =>
      refine ⟨Step.level_of_flat flat depth, fun count => ?_⟩
      cases count with
      | zero => exact Nat.le_refl _
      | succ count =>
          rw [List.take_succ_cons, List.take_nil]
          exact Nat.le_of_eq (Step.level_of_flat flat depth).symm
  | @block inner _ ih =>
      obtain ⟨even, above⟩ := ih (depth + 1)
      have whole : (Step.enter :: inner ++ [Step.leave]).foldl Step.level depth = depth := by
        rw [List.foldl_append, List.foldl_cons]
        exact congrArg (· - 1) even
      refine ⟨whole, fun count => ?_⟩
      cases count with
      | zero => exact Nat.le_refl _
      | succ count =>
          by_cases inside : count ≤ inner.length
          · rw [List.cons_append, List.take_succ_cons, List.foldl_cons,
              List.take_append_of_le_length inside]
            exact Nat.le_of_succ_le (above count)
          · have behind : (Step.enter :: inner ++ [Step.leave]).length ≤ count + 1 := by
              simp only [List.cons_append, List.length_cons, List.length_append, List.length_nil]
              omega
            exact Nat.le_of_eq (by rw [List.take_of_length_le behind, whole])
  | @append first second _ _ ihFirst ihSecond =>
      refine ⟨by rw [List.foldl_append, (ihFirst depth).1, (ihSecond depth).1], fun count => ?_⟩
      rcases Nat.le_total count first.length with inside | behind
      · rw [List.take_append_of_le_length inside]
        exact (ihFirst depth).2 count
      · rw [List.take_append, List.take_of_length_le behind, List.foldl_append, (ihFirst depth).1]
        exact (ihSecond depth).2 _

theorem Nested.inside (nested : Nested inner) {count : Nat} (flat : step.isFlat)
    (done : (Step.enter :: inner ++ [Step.leave])[count]? = some step) (depth : Nat) :
    depth < ((Step.enter :: inner ++ [Step.leave]).take count).foldl Step.level depth := by
  cases count with
  | zero =>
      cases done
      cases flat
  | succ count =>
      rw [List.cons_append, List.getElem?_cons_succ] at done
      rw [List.cons_append, List.take_succ_cons, List.foldl_cons]
      rcases Nat.lt_or_ge count inner.length with within | beyond
      · rw [List.take_append_of_le_length (Nat.le_of_lt within)]
        exact (nested.level (depth + 1)).2 count
      · rw [List.getElem?_append_right beyond] at done
        obtain rfl := List.mem_singleton.mp (List.mem_of_getElem? done)
        cases flat

theorem depth_opened (nested : Nested inner) :
    depth (before ++ .enter :: inner) = depth before + 1 := by
  rw [depth_append, List.foldl_cons, (nested.level _).1]
  rfl

theorem exists_opened (history : List Step) (inside : 0 < depth history) :
    ∃ before inner, Nested inner ∧ history = before ++ .enter :: inner := by
  rcases List.eq_nil_or_concat' history with rfl | ⟨front, last, rfl⟩
  · cases inside
  · rw [depth_append, List.foldl_cons, List.foldl_nil] at inside
    cases last with
    | enter => exact ⟨front, [], .nil, rfl⟩
    | leave =>
        -- What is left here was entered inside of the block that is looked for.
        have deeper : 1 < depth front := Nat.lt_of_sub_pos inside
        obtain ⟨before, inner, nested, rfl⟩ := exists_opened front (Nat.lt_of_succ_lt deeper)
        rw [depth_opened nested] at deeper
        have around := Nat.lt_of_succ_lt_succ deeper
        obtain ⟨outer, earlier, enclosing, rfl⟩ := exists_opened before around
        exact ⟨outer, earlier ++ (.enter :: inner ++ [.leave]), .append enclosing (.block nested),
          by simp⟩
    | _ =>
        obtain ⟨before, inner, nested, rfl⟩ := exists_opened front inside
        exact ⟨before, _, .append nested (.flat rfl), List.append_assoc ..⟩
termination_by history.length
decreasing_by
  all_goals
    subst_vars
    simp only [List.length_append, List.length_cons, List.length_nil]
    omega

theorem Nested.run_blocks (nested : Nested inner) (scope : Scope) {block : List Visible}
    {rest : List (List Visible)} (opened : scope.blocks = block :: rest) :
    ∃ grown, (scope.run inner).blocks = grown :: rest ∧ (scope.run inner).outer = scope.outer := by
  induction nested generalizing scope block rest with
  | nil => exact ⟨block, opened, rfl⟩
  | @flat step flat =>
      rw [run_cons, run_nil]
      rcases scope.act_flat flat with ⟨made, _, alike⟩ | ⟨_, alike⟩
      · rw [alike.blocks, alike.outer, add, opened]
        exact ⟨_, rfl, rfl⟩
      · rw [alike.blocks, alike.outer, opened]
        exact ⟨_, rfl, rfl⟩
  | @block inner _ ih =>
      obtain ⟨grown, blocks, outer⟩ := ih scope.pushBlock rfl
      rw [run_append, run_cons]
      exact ⟨block, (congrArg List.tail blocks).trans opened, outer⟩
  | append _ _ ihFirst ihSecond =>
      obtain ⟨grown, blocks, outer⟩ := ihFirst scope opened
      obtain ⟨more, further, still⟩ := ihSecond _ blocks
      rw [run_append]
      exact ⟨more, further, still.trans outer⟩

theorem run_block (nested : Nested inner) (scope : Scope) :
    (scope.run (.enter :: inner ++ [.leave])).Alike scope := by
  obtain ⟨grown, blocks, outer⟩ := nested.run_blocks scope.pushBlock rfl
  rw [run_append, run_cons]
  exact ⟨congrArg List.tail blocks, outer⟩

end

end Scope

/-! Bodies -/

open Scope

mutual

theorem Clause.Becomes.steps {clause : Clause} {stmt : Stmt} {scope later : Scope}
    (becomes : clause.Becomes scope stmt later) :
    ∃ steps, Nested steps ∧ scope.run steps = later ∧ scope.granted steps = stmt.declared := by
  cases becomes with
  | block become =>
      obtain ⟨inner, nested, rfl, granted⟩ := become.steps
      refine ⟨_, .block nested, ?_, (granted_block inner).trans granted⟩
      rw [run_append]
      rfl
  | declare init added =>
      rename_i type name _ _ _ _
      refine ⟨[.declare name.lexeme type name.span], .flat rfl, ?_, ?_⟩
      · rw [run_cons, run_nil, act, added]
      · rw [granted, grant?, added]
        rfl
  | _ => exact ⟨[], .nil, rfl, rfl⟩

theorem Clause.BecomesIn.steps {clauses : List Clause} {stmts : List Stmt} {scope later : Scope}
    (become : Clause.BecomesIn scope clauses stmts later) : ∃ steps, Nested steps ∧
      scope.run steps = later ∧ scope.granted steps = Stmt.declaredIn stmts := by
  cases become with
  | none => exact ⟨[], .nil, rfl, rfl⟩
  | more first rest =>
      obtain ⟨one, nested, rfl, declared⟩ := first.steps
      obtain ⟨others, further, rfl, more⟩ := rest.steps
      refine ⟨one ++ others, .append nested further, run_append one others, ?_⟩
      rw [granted_append, declared, more, Stmt.declaredIn]

end

namespace BodyParser

variable {names : CallScope} {scope : Scope} {stream : TokenStream}
  {read : Parsed stream (Block × Scope)}

theorem block_steps (done : block names scope stream = .ok read) :
    ∃ inner, Nested inner ∧ scope.run (.enter :: inner ++ [.leave]) = read.value.2 ∧
      scope.granted (.enter :: inner ++ [.leave]) = Stmt.declaredIn read.value.1.stmts := by
  obtain ⟨_, _, _, _, becomes⟩ := block_readAs stream done
  generalize read.value.2 = later at becomes ⊢
  cases becomes with
  | block become =>
      obtain ⟨inner, nested, rfl, granted⟩ := become.steps
      refine ⟨inner, nested, ?_, (granted_block inner).trans granted⟩
      rw [run_append]
      rfl

theorem block_lookup (done : block names scope stream = .ok read) (name : String) :
    read.value.2.lookup name = scope.lookup name := by
  obtain ⟨inner, nested, left, _⟩ := block_steps done
  rw [← left]
  exact (run_block nested scope).lookup name

end BodyParser

/-- The parameters of a function, numbered from zero on, and the locals that its body declares. -/
def Function.numbered (function : Function) : List (VarId × String) :=
  (function.params.params.mapIdx fun place param => (⟨place⟩, param.name)) ++
    Stmt.declaredIn function.body.stmts

namespace Compiler

def memberSteps (fields : Variables) : List Step :=
  fields.map fun member => .member member.name member.type

theorem memberSteps_run (fields : Variables) (scope : Scope) :
    fields.foldl (fun scope member => scope.addMember member.name member.type) scope =
      scope.run (memberSteps fields) := by
  rw [run, memberSteps, List.foldl_map]
  rfl

theorem memberSteps_granted (fields : Variables) (scope : Scope) :
    scope.granted (memberSteps fields) = [] := by
  induction fields generalizing scope with
  | nil => rfl
  | cons field rest ih => exact ih _

theorem ownerScope_steps (classes : ClassTable) (scope : Scope) (owner? : Option String) :
    ∃ steps, scope.run steps = ownerScope classes scope owner? ∧ scope.granted steps = [] := by
  cases owner? with
  | none => exact ⟨[], rfl, rfl⟩
  | some owner =>
      let members := memberSteps ((classes.members? owner).getD [])
      cases known : classes.parent? owner with
      | none =>
          refine ⟨.reserve .this (.object owner) :: members, ?_, memberSteps_granted _ _⟩
          simp only [ownerScope, known, memberSteps_run]
          rfl
      | some parent =>
          refine ⟨.reserve .this (.object owner) :: .reserve .super (.object parent) :: members, ?_,
            memberSteps_granted _ _⟩
          simp only [ownerScope, known, memberSteps_run]
          rfl

theorem addParams_steps : ∀ {params : List Param} {scope later : Scope},
    addParams scope params = .ok later → ∃ steps, scope.run steps = later ∧
      scope.granted steps =
        params.mapIdx fun place param => (⟨scope.locals.length + place⟩, param.name)
  | [], _, _, done => by
      cases done
      exact ⟨[], rfl, rfl⟩
  | param :: rest, scope, later, done => by
      rw [addParams] at done
      obtain ⟨⟨id, between⟩, added, done⟩ := ok_of_bind done
      obtain ⟨steps, reached, numbered⟩ := addParams_steps done
      rcases scope.act_declare param.name param.type param.span with
        ⟨_, _, again, given, does, listed, _⟩ | ⟨_, refused, _⟩
      · rw [added] at again
        cases again
        refine ⟨.declare param.name param.type param.span :: steps, ?_, ?_⟩
        · rw [run_cons, does, reached]
        · rw [granted, given, does, numbered, listed, List.mapIdx_cons]
          simp only [List.length_append, List.length_singleton, Nat.add_zero, Nat.add_assoc,
            Nat.add_comm 1, Option.toList_some, List.singleton_append]
      · rw [added] at refused
        cases refused

/-- Compiling a function does to a new scope what numbers its variables, and nothing that numbers
more. -/
theorem compileBody_steps {env : CompileEnv} {program : ProgramId} {declared : List Signature}
    {published : List Function} {stream : TokenStream} {signature : Signature}
    {function : Function}
    (compiled : compileBody env program declared published stream signature = .ok function) :
    ∃ history, function.locals = (run { returns := function.returns } history).locals ∧
      granted { returns := function.returns } history = function.numbered := by
  unfold compileBody at compiled
  obtain ⟨scope, bound, compiled⟩ := ok_of_bind compiled
  obtain ⟨body, read, compiled⟩ := ok_of_bind compiled
  let new : Scope := { returns := signature.header.returns }
  obtain ⟨object, owned, ungranted⟩ := ownerScope_steps env.classes new signature.header.owner
  rw [bodyScope, ← owned] at bound
  obtain ⟨params, reached, numbered⟩ := addParams_steps bound
  obtain ⟨inner, _, left, declares⟩ := BodyParser.block_steps read
  have empty : (new.run object).locals.length = 0 := by
    rw [owned, (ownerScope_reserved _ _ _).1]
    rfl
  have listed : new.run (object ++ (params ++ (.enter :: inner ++ [.leave]))) = body.value.2 := by
    rw [run_append, run_append, reached, left]
  have identities : new.granted (object ++ (params ++ (.enter :: inner ++ [.leave]))) =
      (signature.header.params.params.mapIdx fun place param => (⟨place⟩, param.name)) ++
        Stmt.declaredIn body.value.1.stmts := by
    rw [granted_append, granted_append, ungranted, numbered, reached, declares, empty, List.nil_append]
    simp only [Nat.zero_add]
  cases compiled
  exact ⟨_, congrArg Scope.locals listed.symm, identities⟩

theorem compile_steps {env : CompileEnv} {id : ProgramId} {name source : String}
    {ids after : Identities} {program : Program} {published : PublicIndex Function}
    (compiled : compile env id name source ids = (.ok program, after, published)) :
    ∀ function ∈ program.functions, ∃ history,
      function.locals = (run { returns := function.returns } history).locals ∧
        granted { returns := function.returns } history = function.numbered := by
  intro function among
  obtain ⟨tokens, _, _, bodies⟩ := compile_parts compiled
  obtain ⟨_, body⟩ := (compileBodies_each bodies).2 function among
  exact compileBody_steps body

end Compiler

end ScriptEngine
