import ScriptEngine.Proofs.Keeping
import ScriptEngine.Proofs.Relinking
import ScriptEngine.Proofs.Transparency
/-! Type soundness. As long as methods that one call can mean return alike and members of one name have
one type, no running code fails because a value is of another type than the compiler took it for, or
because a call finds nothing, and what an expression gives is a value of its type. -/

namespace ScriptEngine

/-- Members of one name are of one type, and methods that one call can mean return alike. -/
structure Code.Agrees (code : Code) : Prop where
  members : code.classes.Unambiguous
  methods : code.Harmonious

def Code.ReturnsAlike (code : Code) : Prop :=
  ∀ method ∈ code.programs.functions, ∀ other ∈ code.programs.functions,
    ∀ derived ∈ method.signature.classBlock, ∀ base ∈ other.signature.classBlock,
      method.name = other.name → code.classes.derives derived base = true →
        method.returns.specializes code.classes.derives other.returns = true

instance (code : Code) : Decidable code.ReturnsAlike := by
  unfold Code.ReturnsAlike
  infer_instance

theorem Code.ReturnsAlike.harmonious {code : Code} (alike : code.ReturnsAlike) :
    code.Harmonious := by
  intro derived base derives method among other also _ ⟨types, fits, _⟩
  have block := classBlock_of_mem among
  have above := classBlock_of_mem also
  obtain ⟨program, loaded, declared, _⟩ := Programs.mem_classMethods among
  obtain ⟨holder, held, defined, _⟩ := Programs.mem_classMethods also
  exact alike method (List.mem_flatMap.mpr ⟨program, loaded, declared⟩) other
    (List.mem_flatMap.mpr ⟨holder, held, defined⟩) derived block base above fits.1 derives

theorem ClassTable.unambiguous_iff {classes : ClassTable} : classes.Unambiguous ↔
    ∀ decl ∈ classes.classes, ∀ fields ∈ classes.members? decl.name, ∀ field ∈ fields,
      ∀ other ∈ fields, field.name = other.name → field.type = other.type := by
  constructor
  · exact fun unambiguous decl _ fields members => unambiguous decl.name fields members
  · intro each className fields members
    have contained : classes.contains className = true := by
      unfold members? at members
      split at members
      · assumption
      · cases members
    obtain ⟨decl, found⟩ := Option.isSome_iff_exists.mp contained
    obtain rfl := name_of_get? found
    exact each decl (List.mem_of_find?_eq_some found) fields members

instance (classes : ClassTable) : Decidable classes.Unambiguous :=
  decidable_of_iff _ ClassTable.unambiguous_iff.symm

/-- An expression that was evaluated, its value and the classes and objects there were then. -/
structure Evaluated where
  expr : Expr
  value : Value
  realm : Realm

namespace Evaluated

/-- The value is one of the type that the compiler gave the expression. -/
def IsTyped (evaluated : Evaluated) : Prop :=
  evaluated.value.Fits evaluated.realm evaluated.expr.type

/-- Values are noted as expressions give them. -/
def watcher : Watcher Evaluated where
  evaluated code _ _ expr ended :=
    match ended.1 with
    | .done value => [⟨expr, value, code.realm ended.2.world⟩]
    | .suspended _ | .failed _ => []
  stores _ _ _ _ := []

theorem watcher_sees (code : Code) : watcher.Sees IsTyped typing code where
  evaluated := by
    intro names function locals vars expr progress machine _ _ yields note among
    cases progress with
    | done value =>
        rw [List.mem_singleton.mp among]
        exact (yields value rfl).fits
    | suspended | failed => cases among
  stores := by
    intro names function locals vars target type machine _ _ note absurdity
    cases absurdity

end Evaluated

/-- What a host may do so that values stay of their types. It unloads nothing; what it registers and
compiles agrees with what is there; arguments of its calls and members that it writes are values of
their types, and handles do not come to mean other objects while a call is suspended. -/
def Host.honors (host : Host) : Operation → Prop
  | .unload _ => False
  | .register decl => (host.step (.register decl)).engine.code.Agrees
  | .compile name source => (host.step (.compile name source)).engine.code.Agrees
  | .changeHeap change =>
      let heap := change host.engine.world.heap
      heap.Reusable ∧ heap.All (Object.IsBuilt host.engine.code.classes) ∧
        (heap.All fun object => ∀ field ∈ object.fields,
          field.value.Fits ⟨host.engine.code.classes, heap⟩ field.type) ∧
        (host.engine.world.heap.Leads heap ∨
          ∀ stack ∈ host.executions, stack.isActive = false)
  | .call _ _ args _ | .callMethod _ _ _ args _ => ∀ arg ∈ args, arg.value.Fits host.realm arg.type
  | .reload place => ∀ stack, host.executions[place]? = some stack →
      stack.root.isLoaded host.engine.code = true
  | _ => True

/-- The hosts that such operations lead to. A stack that was saved on one of them may be restored on
another one with the heap that was saved with it, and a stack may be dropped. -/
inductive Host.Honest : Host → Prop
  | fresh : Honest {}
  | step {host : Host} {operation : Operation} : host.Honest → host.honors operation →
      Honest (host.step operation)
  | restored {saver host : Host} {stack : Stack} : saver.Honest → host.Honest →
      stack ∈ saver.executions → host.Welcomes saver stack → Honest (host.restoring stack)
  | dropped {host : Host} (place : Nat) : host.Honest →
      Honest { host with executions := host.executions.eraseIdx place }

namespace Engine.Typed

variable {engine after : Engine} {known more : List Function}

theorem fresh : ({} : Engine).Typed [] where
  toKnows := .fresh
  founded := trivial
  linked := ⟨nofun, nofun⟩
  unambiguous := by
    rintro className fields ⟨⟩
  harmonious := by
    rintro derived base ⟨⟩

theorem congr (typed : engine.Typed known) (knows : after.Knows more)
    (code : after.code = engine.code) : after.Typed more where
  toKnows := knows
  founded := code ▸ typed.founded
  linked := code ▸ typed.linked
  unambiguous := code ▸ typed.unambiguous
  harmonious := code ▸ typed.harmonious

end Engine.Typed

namespace Host

variable {host : Host} {known more : List Function}

theorem admits_of_honors {operation : Operation} (honors : host.honors operation) :
    host.admits typing operation := by
  cases operation with
  | changeHeap | call | callMethod | reload => exact honors
  | register | compile | unload | set | newInstance | bindInstance | newStack | resume | abort
  | copy => trivial

theorem step_adds {operation : Operation} (honors : host.honors operation) :
    ∃ added, host.engine.Adds (host.step operation).engine added ∧
      ∀ program ∈ added, added = [program] ∧ ∃ id name source ids behind published,
        Compiler.compile host.engine.compileEnv id name source ids =
          (.ok program, behind, published) := by
  have same : ∀ {after : Engine}, after.code = host.engine.code →
      ∃ added, host.engine.Adds after added ∧
        ∀ program ∈ added, added = [program] ∧ ∃ id name source ids behind published,
          Compiler.compile host.engine.compileEnv id name source ids =
            (.ok program, behind, published) := by
    intro after code
    refine ⟨[], ⟨code ▸ .refl _, ?_⟩, List.forall_mem_nil _⟩
    rw [code, List.append_nil]
  cases sets : operation.isSetup with
  | false => exact same (step_twin sets).code
  | true =>
      obtain ⟨grows, _⟩ := @step_loads host operation sets
      cases operation with
      | unload => exact honors.elim
      | register decl =>
          refine ⟨[], ⟨grows, ?_⟩, List.forall_mem_nil _⟩
          simp only [step, Engine.register]
          cases host.engine.code.classes.register decl <;> exact (List.append_nil _).symm
      | set setting value =>
          refine ⟨[], ⟨grows, ?_⟩, List.forall_mem_nil _⟩
          cases setting <;> exact (List.append_nil _).symm
      | compile name source =>
          simp only [step, Engine.compile] at grows ⊢
          cases compiled : Compiler.compile host.engine.compileEnv host.engine.ids.nextProgram.1 name
            source host.engine.ids.nextProgram.2 with
          | mk result behind =>
              obtain ⟨ids, published⟩ := behind
              rw [compiled] at grows
              cases result with
              | error error => exact ⟨[], ⟨grows, (List.append_nil _).symm⟩, List.forall_mem_nil _⟩
              | ok program =>
                  refine ⟨[program], ⟨grows, rfl⟩, fun other only => ?_⟩
                  rw [List.mem_singleton.mp only]
                  exact ⟨rfl, _, _, _, _, _, _, compiled⟩
      | newInstance | bindInstance | changeHeap | newStack | call | callMethod | resume | abort
      | copy | reload => cases sets

theorem step_founded (founded : ClassTable.Founded host.engine.code.classes.classes)
    (operation : Operation) :
    ClassTable.Founded (host.step operation).engine.code.classes.classes := by
  cases sets : operation.isSetup with
  | false =>
      rw [(step_twin sets).code]
      exact founded
  | true =>
      cases operation with
      | register decl =>
          simp only [step, Engine.register]
          cases registered : host.engine.code.classes.register decl with
          | error error => exact founded
          | ok classes => exact ClassTable.register_founded founded registered
      | compile name source =>
          simp only [step, Engine.compile]
          split <;> exact founded
      | unload program =>
          simp only [step, Engine.unload]
          cases host.engine.code.programs.get? program <;> exact founded
      | set setting value => cases setting <;> exact founded
      | newInstance | bindInstance | changeHeap | newStack | call | callMethod | resume | abort
      | copy | reload => cases sets

theorem step_agrees (agrees : host.engine.code.Agrees) {operation : Operation}
    (honors : host.honors operation) : (host.step operation).engine.code.Agrees := by
  cases operation with
  | register | compile => exact honors
  | unload => exact honors.elim
  | set setting value => cases setting <;> exact ⟨agrees.members, agrees.methods⟩
  | newInstance | bindInstance | changeHeap | newStack | call | callMethod | resume | abort | copy
  | reload =>
      rw [(step_twin rfl).code]
      exact agrees

theorem step_typed (typed : host.engine.Typed known) {operation : Operation}
    (honors : host.honors operation) (knows : (host.step operation).engine.Knows more) :
    (host.step operation).engine.Typed more ∧ ∀ world, host.engine.code.Remembers world →
      (host.step operation).engine.code.Remembers world := by
  obtain ⟨added, adds, compiled⟩ := step_adds honors
  have linked : (host.step operation).engine.code.Linked := by
    refine typed.linked.extend typed.toKnows knows adds (fun program new => ?_) fun program new => ?_
    · obtain ⟨rfl, _, _, _, _, _, _, compiled⟩ := compiled program new
      exact typed.toKnows.covers_compiled knows adds compiled
    · obtain ⟨_, _, _, _, _, _, _, compiled⟩ := compiled program new
      exact Compiler.compile_sites compiled
  have agrees := step_agrees ⟨typed.unambiguous, typed.harmonious⟩ honors
  exact ⟨⟨knows, step_founded typed.founded operation, linked, agrees.members, agrees.methods⟩,
    fun world remembers => remembers.extend typed.toKnows knows adds linked⟩

theorem Honest.typed (honest : host.Honest) : ∃ known, host.Formed known ∧
    host.engine.Typed known ∧ host.Keeping typing (host.engine.past known) := by
  induction honest with
  | fresh =>
      refine ⟨[], .fresh, .fresh, .fresh ⟨nofun, fun function owns => ?_⟩⟩
      cases owns
  | @step host operation _ honors ih =>
      obtain ⟨known, formed, typed, keeping⟩ := ih
      obtain ⟨more, later⟩ := formed.step operation
      obtain ⟨further, remembers⟩ := step_typed typed honors later.knows
      refine ⟨_, later, further, (step_keeping formed typed.governs keeping
        (admits_of_honors honors) fun sets => ?_).mono typing_lawful
          ((step_turn host operation).past_within formed.knows later.knows)⟩
      obtain ⟨_, _, callees, _⟩ := @step_loads host operation sets
      exact typing_lawful.kept (remembers _ keeping.healthy.remembers) callees
  | @restored saver host stack _ _ among welcomes saver ih =>
      obtain ⟨before, saved, _, standing⟩ := saver
      obtain ⟨known, formed, typed, keeping⟩ := ih
      obtain ⟨joins, after⟩ := restoring_keeping typing_lawful saved standing formed keeping among
        welcomes
      obtain ⟨code, past, knows⟩ := restoring_keeps formed.knows.fits joins welcomes.loaded
      exact ⟨known, restoring_formed formed joins welcomes.loaded,
        typed.congr (knows formed.knows) code, past ▸ after⟩
  | dropped place _ ih =>
      obtain ⟨known, formed, typed, keeping⟩ := ih
      refine ⟨known, ⟨formed.knows, fun stack among => ?_⟩, typed,
        keeping.congr typing_lawful rfl rfl rfl fun stack among =>
          Or.inl (List.mem_of_mem_eraseIdx among)⟩
      exact formed.executions stack (List.mem_of_mem_eraseIdx among)

end Host

/-- In every run in which no program is unloaded, members of one name have one type and methods that
one call can mean return alike, no call fails because a value is of another type than was expected, or
because no function is found, and every expression gives a value of the type that it was compiled
with: one that is the same when it is converted to that type, and an object of its class if it means
one that is still there. -/
theorem types_are_sound {host : Host} (honest : host.Honest) {operation : Operation}
    (honors : host.honors operation) {driven : Driven} {evaluated : List Evaluated}
    (drives : host.watching Evaluated.watcher operation = some (driven, evaluated)) :
    (∀ error, driven.outcome = .ok (.failed error) →
      error.cause ≠ .typeMismatch ∧ error.cause ≠ .undefinedCall) ∧
    ∀ each ∈ evaluated, each.IsTyped := by
  obtain ⟨known, _, typed, keeping⟩ := honest.typed
  have keeps := Host.driving_keeps typed.governs (Evaluated.watcher_sees _) keeping
    (Host.admits_of_honors honors) drives
  refine ⟨fun error failed => ?_, keeps.noted⟩
  have spared := keeps.spared error failed
  constructor <;> intro same <;> exact spared (same ▸ rfl)

def Host.setsUp (host : Host) : Operation → Bool
  | .set .. | .newInstance _ | .newStack _ => true
  | .register decl =>
      let code := (host.step (.register decl)).engine.code
      decide code.classes.Unambiguous && decide code.ReturnsAlike
  | .compile name source =>
      let code := (host.step (.compile name source)).engine.code
      decide code.classes.Unambiguous && decide code.ReturnsAlike
  | _ => false

theorem Host.honors_of_setsUp {host : Host} {operation : Operation}
    (sets : host.setsUp operation = true) : host.honors operation := by
  cases operation with
  | register | compile =>
      have agrees := Bool.and_eq_true_iff.mp sets
      exact ⟨of_decide_eq_true agrees.1, (of_decide_eq_true agrees.2).harmonious⟩
  | set | newInstance | newStack => trivial
  | unload | bindInstance | changeHeap | call | callMethod | resume | abort | copy | reload =>
      cases sets

def Host.setUp (host : Host) : List Operation → Bool
  | [] => true
  | operation :: rest => host.setsUp operation && (host.step operation).setUp rest

theorem Host.Honest.of_setUp {operations : List Operation} {host : Host} (honest : host.Honest)
    (checked : host.setUp operations = true) : (operations.foldl Host.step host).Honest := by
  induction operations generalizing host with
  | nil => exact honest
  | cons operation rest ih =>
      have both := Bool.and_eq_true_iff.mp checked
      exact ih (honest.step (Host.honors_of_setsUp both.1)) both.2

def growing : List Operation :=
  [.register { name := "Plant", fields := [⟨"height", .int, false⟩] },
    .register { name := "Tree", parent := some "Plant" },
    .compile "plant" "class Plant { long grow(int n) { height = height + n; return height; }
      Plant next() { return null; } }",
    .compile "tree"
      "class Tree { long grow(int n) { return super.grow(n) / 2.0; } Tree next() { return this; } }",
    .compile "growing" "int go(Plant plant, byte n) { return plant.next().grow(n) + 1; }",
    .newInstance "Tree", .newStack ⟨3⟩]

def Host.holds (host : Host) (className : String) (handle : Handle) : Bool :=
  (host.realm.heap.get? handle).any fun object =>
    host.realm.classes.derives object.className className

theorem Host.fits_of_holds {host : Host} {className : String} {handle : Handle}
    (holds : host.holds className handle = true) :
    (Value.object handle).Fits host.realm (.object className) := by
  obtain ⟨object, live, derives⟩ := (Option.any_eq_true _ _).mp holds
  exact .object (.of_live live derives)

theorem types_are_sound_of_growing : ∃ driven evaluated,
    (Host.after growing).watching Evaluated.watcher (.call 0 "go"
        [.pointer "" "Plant" ⟨0, 0⟩, .holding "" .int (.int 300)] .unlimited) =
      some (driven, evaluated) ∧ driven.int? = some 23 ∧ evaluated.length = 16 ∧
    (∀ error, driven.outcome = .ok (.failed error) →
      error.cause ≠ .typeMismatch ∧ error.cause ≠ .undefinedCall) ∧
    ∀ each ∈ evaluated, each.IsTyped := by
  have checked : (Host.setUp {} growing && (Host.after growing).holds "Plant" ⟨0, 0⟩ &&
      decide (((Host.after growing).watching Evaluated.watcher (.call 0 "go"
        [.pointer "" "Plant" ⟨0, 0⟩, .holding "" .int (.int 300)] .unlimited)).map
          (fun run => (run.1.int?, run.2.length)) = some (some 23, 16))) = true := by
    decide +kernel
  simp only [Bool.and_eq_true, decide_eq_true_eq] at checked
  obtain ⟨⟨setUp, holds⟩, shown⟩ := checked
  obtain ⟨⟨driven, evaluated⟩, drives, shown⟩ := Option.map_eq_some_iff.mp shown
  obtain ⟨completes, counted⟩ := Prod.mk.inj shown
  have kept : (Value.int 300).convert? .int = some (.int 300) := rfl
  have honors : (Host.after growing).honors (.call 0 "go"
      [.pointer "" "Plant" ⟨0, 0⟩, .holding "" .int (.int 300)] .unlimited) := by
    simp only [Host.honors, List.forall_mem_cons]
    exact ⟨Host.fits_of_holds holds, .of_converted kept rfl, List.forall_mem_nil _⟩
  exact ⟨driven, evaluated, drives, completes, counted,
    types_are_sound (.of_setUp .fresh setUp) honors drives⟩

def Host.stops (host : Host) (operation : Operation) : Option RuntimeCause :=
  (host.watching Evaluated.watcher operation).bind fun (driven, _) =>
    match driven.outcome with
    | .ok (.failed error) => some error.cause
    | _ => none

/-- A method that is nearer to the class of the object takes the operand too, and returns something
else than the one that the call was compiled with. -/
def nearerReturn : Host := Host.after [.register { name := "B" },
  .register { name := "D", parent := some "B" },
  .compile "methods" "class B { int f(long n) { return 1; } } class D { D f(int n) { return this; } }",
  .compile "call" "int go(B b) { return b.f(1); }",
  .newInstance "D", .newStack ⟨2⟩]

/-- After a call has gone to a derived class, the next one on an object of the class itself goes to the
method that takes the operand best, which is one that another program has added. -/
def addedReturn : Host := Host.after [.register { name := "B" },
  .register { name := "D", parent := some "B" },
  .compile "methods" "class B { int f(long n) { return 1; } } class D { int f(int n) { return 2; } }",
  .compile "calls" "int pick(B b) { return b.f(1); } int go(B b, B c) { return pick(b) + pick(c); }",
  .compile "added" "class B { B f(int n) { return this; } }",
  .newInstance "D", .newInstance "B", .newStack ⟨2⟩]

/-- A class has a member of the name of an inherited one, but not of its type. -/
def otherMember : Host := Host.after [.register { name := "B", fields := [⟨"a", .int, false⟩] },
  .register { name := "D", parent := some "B", fields := [⟨"a", .string, false⟩] },
  .compile "member" "class D { string f() { return a; } } string go(D d) { return d.f(); }",
  .newInstance "D", .newStack ⟨1⟩]

/-- Where methods that one call can mean return something else, or members of one name have different
types, a call whose arguments are of their types stops because a value is not of the type that it was
taken for. -/
theorem types_unsound :
    (nearerReturn.honors (.call 0 "go" [.pointer "" "B" ⟨0, 0⟩] .unlimited) ∧
      nearerReturn.stops (.call 0 "go" [.pointer "" "B" ⟨0, 0⟩] .unlimited) =
        some .typeMismatch) ∧
    (addedReturn.honors (.call 0 "go" [.pointer "" "B" ⟨0, 0⟩, .pointer "" "B" ⟨1, 0⟩] .unlimited) ∧
      addedReturn.stops (.call 0 "go" [.pointer "" "B" ⟨0, 0⟩, .pointer "" "B" ⟨1, 0⟩] .unlimited) =
        some .typeMismatch) ∧
    otherMember.honors (.call 0 "go" [.pointer "" "D" ⟨0, 0⟩] .unlimited) ∧
      otherMember.stops (.call 0 "go" [.pointer "" "D" ⟨0, 0⟩] .unlimited) =
        some .typeMismatch := by
  have held : nearerReturn.holds "B" ⟨0, 0⟩ && addedReturn.holds "B" ⟨0, 0⟩ &&
      addedReturn.holds "B" ⟨1, 0⟩ && otherMember.holds "D" ⟨0, 0⟩ := by
    decide +kernel
  simp only [Bool.and_eq_true] at held
  obtain ⟨⟨⟨nearer, derived⟩, based⟩, other⟩ := held
  refine ⟨⟨?_, by decide +kernel⟩, ⟨?_, by decide +kernel⟩, ?_, by decide +kernel⟩ <;>
    simp only [Host.honors, List.forall_mem_cons]
  · exact ⟨Host.fits_of_holds nearer, List.forall_mem_nil _⟩
  · exact ⟨Host.fits_of_holds derived, Host.fits_of_holds based, List.forall_mem_nil _⟩
  · exact ⟨Host.fits_of_holds other, List.forall_mem_nil _⟩

end ScriptEngine
