import ScriptEngine.Proofs.Overriding
import ScriptEngine.Proofs.Sightings
/-! The object of a program. The first method of a program that is called without a receiver gets a
new object, and the program keeps it. Methods of its class, and of the classes it derives from, share
it from then on; any other method gets an object of its own each time it is called. A body that goes on
does so on the object that it started with. -/

namespace ScriptEngine

def Sighting.started? (program : ProgramId) : Sighting → Option Attachment
  | .started method => if method.program = program then some method else none
  | .continued _ | .loaded _ => none

/-- A body that goes on came to be suspended, or was loaded, before. -/
def Sighting.Ordered (log : List Sighting) : Prop :=
  ∀ before method after, log = before ++ .continued method :: after →
    .started method ∈ before ∨ .loaded method ∈ before

namespace Sighting.Ordered

variable {log more : List Sighting}

theorem nil : Ordered [] := fun _ _ _ split => by simp at split

theorem append (ordered : Ordered log) (known : ∀ method, .continued method ∈ more →
    .started method ∈ log ∨ .loaded method ∈ log) : Ordered (log ++ more) := by
  intro before method after split
  rcases List.append_eq_append_iff.mp split with ⟨passed, rfl, behind⟩ | ⟨left, rfl, behind⟩
  · exact (known method (by simp [behind])).imp (List.mem_append_left _) (List.mem_append_left _)
  · cases left with
    | nil =>
        rw [List.append_nil] at known
        rw [List.nil_append] at behind
        exact known method (behind ▸ List.mem_cons_self)
    | cons sighting left =>
        obtain ⟨rfl, _⟩ := List.cons.inj behind
        exact ordered before method left rfl

end Sighting.Ordered

namespace Host

/-- The operation neither chooses the object of the program nor frees objects or makes them ones of
another class. -/
def leaves (program : ProgramId) (host : Host) : Operation → Prop
  | .bindInstance other _ => other ≠ program
  | .changeHeap change => host.engine.world.heap.Retains (change host.engine.world.heap)
  | .register _ | .compile .. | .unload _ | .set .. | .newInstance _ | .newStack _ | .call ..
  | .callMethod .. | .resume .. | .abort _ | .copy _ | .reload _ => True

/-- The hosts that such operations lead to, with what is seen of free-form methods on the way. Stacks
that were saved may be loaded, wherever that was, and stacks may be dropped. -/
inductive Serving (program : ProgramId) : List Sighting → Host → Prop
  | fresh : Serving program [] {}
  | step {log : List Sighting} {host : Host} (operation : Operation) :
      Serving program log host → host.leaves program operation →
      Serving program (log ++ host.sightings operation) (host.step operation)
  | loaded {log : List Sighting} {saver host : Host} {stack : Stack} : Serving program log host →
      saver.Reachable → stack ∈ saver.executions → host.Accepts saver stack →
      Serving program (log ++ stack.root.attachments.map .loaded) (host.restoring stack)
  | dropped {log : List Sighting} {host : Host} (place : Nat) : Serving program log host →
      Serving program log { host with executions := host.executions.eraseIdx place }

theorem Serving.reachable {program : ProgramId} {log : List Sighting} {host : Host}
    (serving : Serving program log host) : host.Reachable := by
  induction serving with
  | fresh => exact .fresh
  | step operation _ _ ih => exact .step operation ih
  | loaded _ saver among accepts ih => exact .restored saver ih among accepts
  | dropped place _ ih => exact .dropped place ih

end Host

namespace Attachment

/-- The objects of the calls of a program's methods: those of methods of classes that the class of the
first one derives from are the first one's, and any other was new when it was given out. -/
structure Shared (classes : ClassTable) (first : Attachment) (log : List Attachment) : Prop where
  founder : log.head? = some first
  known : classes.contains first.owner = true
  one : ∀ method ∈ log, classes.derives first.owner method.owner = true → method.this = first.this
  apart : log.Pairwise fun earlier later =>
    classes.derives first.owner later.owner = false → earlier.this ≠ later.this

namespace Shared

variable {classes newer : ClassTable} {first method : Attachment} {log : List Attachment}

theorem later (shared : Shared classes first log) (grows : classes.Grows newer) :
    Shared newer first log where
  founder := shared.founder
  known := grows.contains shared.known
  one := by
    simp only [grows.derives_eq shared.known]
    exact shared.one
  apart := by
    simp only [grows.derives_eq shared.known]
    exact shared.apart

theorem concat (shared : Shared classes first log)
    (cases? : classes.derives first.owner method.owner = true ∧ method.this = first.this ∨
      classes.derives first.owner method.owner = false ∧
        ∀ earlier ∈ log, earlier.this ≠ method.this) :
    Shared classes first (log ++ [method]) where
  founder := by rw [List.head?_append, shared.founder, Option.some_or]
  known := shared.known
  one := by
    refine List.forall_mem_append.mpr ⟨shared.one, List.forall_mem_singleton.mpr fun derives => ?_⟩
    rcases cases? with ⟨_, same⟩ | ⟨unrelated, _⟩
    · exact same
    · exact absurd derives (by simp [unrelated])
  apart := by
    refine List.pairwise_append.mpr ⟨shared.apart, List.pairwise_singleton .., ?_⟩
    intro earlier old later new unrelated
    obtain rfl := List.mem_singleton.mp new
    rcases cases? with ⟨derives, _⟩ | ⟨_, fresh⟩
    · exact absurd derives (by simp [unrelated])
    · exact fresh earlier old

theorem same_iff (shared : Shared classes first log) (among : method ∈ log) :
    method.this = first.this ↔ classes.derives first.owner method.owner = true := by
  refine ⟨fun same => ?_, shared.one method among⟩
  obtain ⟨rest, rfl⟩ := List.head?_eq_some_iff.mp shared.founder
  rcases List.mem_cons.mp among with rfl | behind
  · exact ClassTable.derives_refl shared.known
  · by_contra unrelated
    exact (List.pairwise_cons.mp shared.apart).1 method behind (by simpa using unrelated) same.symm

theorem agree (shared : Shared classes first log) : log.Pairwise fun earlier later =>
    (earlier.this = later.this ↔ classes.derives first.owner earlier.owner = true ∧
      classes.derives first.owner later.owner = true) := by
  refine shared.apart.imp_of_mem ?_
  intro earlier later old new apart
  rw [← shared.same_iff old, ← shared.same_iff new]
  constructor
  · intro same
    by_cases shares : later.this = first.this
    · exact ⟨same.trans shares, shares⟩
    · rw [shared.same_iff new] at shares
      exact absurd same (apart (by simpa using shares))
  · rintro ⟨one, other⟩
    exact one.trans other.symm

end Shared

end Attachment

structure World.Serves (world : World) (classes : ClassTable) (program : ProgramId)
    (first : Attachment) (log : List Attachment) : Prop
    extends Attachment.Shared classes first log where
  bound : world.instance? program = some first.this
  object : ∃ object, world.heap.get? first.this = some object ∧ object.className = first.owner
  reached : ∀ method ∈ log, ∃ object, world.heap.get? method.this = some object

theorem Invocation.programInstance_cases {code : Code} {program : ProgramId} {className : String}
    {world after : World} {handle : Handle}
    (done : programInstance code program className world = .ok (handle, after)) :
    (after = world ∧ world.instance? program = some handle ∧ ∃ object,
      world.heap.get? handle = some object ∧
      code.classes.derives object.className className = true) ∨
    ∃ fields, code.classes.contains className = true ∧
      (∀ bound object, world.instance? program = some bound →
        world.heap.get? bound = some object →
        code.classes.derives object.className className = false) ∧
      handle = (world.heap.allocate ⟨className, fields⟩).1 ∧
      after.heap = (world.heap.allocate ⟨className, fields⟩).2 ∧
      ∀ other, after.instance? other =
        if other = program then some ((world.instance? program).getD handle)
        else world.instance? other := by
  unfold programInstance at done
  dsimp only at done
  split at done
  -- What the program keeps is used if it is alive and of the class.
  · rename_i fitting
    obtain ⟨bound, fits⟩ := Option.filter_eq_some_iff.mp fitting
    cases done
    split at fits
    · rename_i object live
      exact Or.inl ⟨rfl, bound, object, live, fits⟩
    · cases fits
  -- A new object is made, and kept only if nothing is kept yet.
  · rename_i unfit
    split at done
    · cases done
    · rename_i fields members
      cases done
      refine Or.inr ⟨fields, ?_, ?_, rfl, ?_, fun other => ?_⟩
      · unfold ClassTable.members? at members
        split at members
        · assumption
        · cases members
      · intro bound object kept live
        have refused := Option.filter_eq_none_iff.mp unfit bound kept
        simpa [live] using refused
      · split <;> rfl
      · cases kept : world.instance? program with
        | none =>
            simp only [Option.isNone_none, if_true, Option.getD_none, World.instance?_withInstance]
            rfl
        | some bound =>
            simp only [Option.isNone_some, Bool.false_eq_true, if_false, Option.getD_some]
            split
            · rename_i same
              rw [same]
              exact kept
            · rfl

theorem Invocation.programInstance_retains {code : Code} {program : ProgramId} {className : String}
    {world after : World} {handle : Handle} (reusable : world.heap.Reusable)
    (done : programInstance code program className world = .ok (handle, after)) :
    world.heap.Retains after.heap := by
  rcases programInstance_cases done with ⟨rfl, _⟩ | ⟨fields, _, _, _, heap, _⟩
  · exact .refl _
  · exact heap ▸ .allocate reusable _

namespace Attaches

variable {code : Code} {held : List Attachment} {world after : World} {seen : List Sighting}

theorem retains (attaches : Attaches code held world seen after) :
    world.heap.Reusable → world.heap.Retains after.heap := by
  induction attaches with
  | kept retains => exact fun _ => retains.heap
  | started _ _ done => exact fun reusable => Invocation.programInstance_retains reusable done
  | continued => exact fun _ => .refl _
  | trans _ _ before behind =>
      intro reusable
      have first := before reusable
      exact first.trans (behind (first.reusable reusable))

theorem loaded (attaches : Attaches code held world seen after) {method : Attachment}
    (among : .started method ∈ seen) : (code.programs.get? method.program).isSome = true := by
  induction attaches with
  | kept => cases among
  | started owns _ _ =>
      cases List.mem_singleton.mp among
      obtain ⟨loaded, found, _⟩ := Option.bind_eq_some_iff.mp owns
      exact Option.isSome_of_eq_some found
  | continued => cases List.mem_singleton.mp among
  | trans _ _ before behind => exact (List.mem_append.mp among).elim before behind

theorem none_of_gone (attaches : Attaches code held world seen after) {program : ProgramId}
    (gone : code.programs.get? program = none) : seen.filterMap (Sighting.started? program) = [] := by
  rw [List.filterMap_eq_nil_iff]
  intro sighting among
  cases sighting with
  | started method =>
      refine if_neg fun mine => ?_
      have there := attaches.loaded among
      rw [mine, gone] at there
      cases there
  | continued | loaded => rfl

end Attaches

namespace World

theorem instance?_withoutInstance (world : World) {program asked : ProgramId}
    (different : asked ≠ program) :
    (world.withoutInstance program).instance? asked = world.instance? asked := by
  have replaced := instance?_withInstance world program asked default
  rw [if_neg different] at replaced
  simpa [withInstance, instance?, List.lookup_cons, beq_false_of_ne different] using replaced

variable {code : Code} {classes newer : ClassTable} {program : ProgramId} {owner : String}
  {first method : Attachment} {world after : World} {held log : List Attachment}
  {seen : List Sighting}

/-- The methods of a program got what they should: nothing yet, or objects of which the program keeps
the first one's. -/
def Served (world : World) (classes : ClassTable) (program : ProgramId) (log : List Attachment) :
    Prop :=
  (log = [] ∧ world.instance? program = none) ∨ ∃ first, world.Serves classes program first log

theorem Serves.retained (serves : world.Serves classes program first log)
    (same : after.instance? program = world.instance? program)
    (retains : world.heap.Retains after.heap) : after.Serves classes program first log where
  toShared := serves.toShared
  bound := same.trans serves.bound
  object := by
    obtain ⟨object, live, named⟩ := serves.object
    obtain ⟨changed, live, also⟩ := retains.live first.this object live
    exact ⟨changed, live, also.trans named⟩
  reached := fun method among => by
    obtain ⟨object, live⟩ := serves.reached method among
    obtain ⟨changed, live, _⟩ := retains.live _ object live
    exact ⟨changed, live⟩

theorem Served.retained (served : world.Served classes program log)
    (same : after.instance? program = world.instance? program)
    (retains : world.heap.Retains after.heap) : after.Served classes program log := by
  rcases served with ⟨nothing, unbound⟩ | ⟨first, serves⟩
  · exact Or.inl ⟨nothing, same.trans unbound⟩
  · exact Or.inr ⟨first, serves.retained same retains⟩

theorem Served.later (served : world.Served classes program log) (grows : classes.Grows newer) :
    world.Served newer program log :=
  served.imp_right fun ⟨first, serves⟩ =>
    ⟨first, ⟨serves.toShared.later grows, serves.bound, serves.object, serves.reached⟩⟩

theorem Serves.founded {fields : Variables} (reusable : world.heap.Reusable)
    (known : classes.contains method.owner = true) (unbound : world.instance? program = none)
    (made : method.this = (world.heap.allocate ⟨method.owner, fields⟩).1)
    (heap : after.heap = (world.heap.allocate ⟨method.owner, fields⟩).2)
    (instances : after.instance? program = some ((world.instance? program).getD method.this)) :
    after.Serves classes program method [method] where
  founder := rfl
  known := known
  one := List.forall_mem_singleton.mpr fun _ => rfl
  apart := List.pairwise_singleton ..
  bound := by rw [instances, unbound, Option.getD_none]
  object := ⟨_, by rw [heap, made, Heap.get?_allocate reusable], rfl⟩
  reached := List.forall_mem_singleton.mpr ⟨_, by rw [heap, made, Heap.get?_allocate reusable]⟩

theorem Served.started (served : world.Served code.classes program log)
    (reusable : world.heap.Reusable)
    (done : Invocation.programInstance code program method.owner world = .ok (method.this, after)) :
    after.Served code.classes program (log ++ [method]) := by
  rcases Invocation.programInstance_cases done with ⟨rfl, bound, object, live, derives⟩ |
    ⟨fields, known, unfit, made, heap, instances⟩
  · rcases served with ⟨_, unbound⟩ | ⟨first, serves⟩
    · rw [bound] at unbound
      cases unbound
    · obtain ⟨other, found, named⟩ := serves.object
      have same : method.this = first.this := Option.some.inj (bound.symm.trans serves.bound)
      rw [same, found] at live
      obtain rfl := Option.some.inj live
      rw [named] at derives
      refine Or.inr ⟨first, serves.toShared.concat (Or.inl ⟨derives, same⟩), serves.bound,
        serves.object, List.forall_mem_append.mpr
          ⟨serves.reached, List.forall_mem_singleton.mpr ⟨other, same ▸ found⟩⟩⟩
  · have instances := (instances program).trans (if_pos rfl)
    have retains : world.heap.Retains after.heap := heap ▸ .allocate reusable _
    have there : after.heap.get? method.this = some ⟨method.owner, fields⟩ := by
      rw [heap, made, Heap.get?_allocate reusable]
    rcases served with ⟨rfl, unbound⟩ | ⟨first, serves⟩
    · exact Or.inr ⟨method, .founded reusable known unbound made heap instances⟩
    · obtain ⟨object, found, named⟩ := serves.object
      have unrelated := unfit first.this object serves.bound found
      rw [named] at unrelated
      have later := serves.retained (by rw [instances, serves.bound, Option.getD_some]) retains
      refine Or.inr ⟨first, serves.toShared.concat (Or.inr ⟨unrelated, ?_⟩), later.bound,
        later.object, List.forall_mem_append.mpr
          ⟨later.reached, List.forall_mem_singleton.mpr ⟨_, there⟩⟩⟩
      intro earlier among same
      obtain ⟨object, live⟩ := serves.reached earlier among
      rw [same, made, Heap.get?_allocate_none reusable] at live
      cases live

/-- Running code gives the methods of a program what they should get. -/
theorem Served.along (attaches : Attaches code held world seen after) :
    ∀ {log : List Attachment}, world.heap.Reusable → world.Served code.classes program log →
      after.Served code.classes program (log ++ seen.filterMap (Sighting.started? program)) := by
  induction attaches with
  | kept retains =>
      intro log _ served
      rw [List.filterMap_nil, List.append_nil]
      refine served.retained ?_ retains.heap
      rw [instance?, instance?, retains.instances]
  | @started function owner this world after owns owned done =>
      intro log reusable served
      by_cases mine : function.program = program
      · subst mine
        have here : [Sighting.started ⟨function.program, function.id, owner, this⟩].filterMap
            (Sighting.started? function.program) =
              [⟨function.program, function.id, owner, this⟩] := by
          simp [Sighting.started?]
        rw [here]
        exact served.started reusable done
      · have apart : [Sighting.started ⟨function.program, function.id, owner, this⟩].filterMap
            (Sighting.started? program) = [] := by
          simp [Sighting.started?, mine]
        rw [apart, List.append_nil]
        refine served.retained ?_ (Invocation.programInstance_retains reusable done)
        rcases Invocation.programInstance_cases done with ⟨rfl, _⟩ | ⟨_, _, _, _, _, instances⟩
        · rfl
        · exact (instances program).trans (if_neg (Ne.symm mine))
  | continued =>
      intro log _ served
      rw [List.filterMap_cons_none rfl, List.filterMap_nil, List.append_nil]
      exact served
  | trans first _ before behind =>
      intro log reusable served
      rw [List.filterMap_append, ← List.append_assoc]
      exact behind ((first.retains reusable).reusable reusable) (before reusable served)

end World

namespace Host

variable {program : ProgramId} {host : Host} {operation : Operation}

theorem Reachable.step_objects (reachable : host.Reachable)
    (reusable : host.engine.world.heap.Reusable) (leaves : host.leaves program operation)
    (other : operation ≠ .unload program) :
    (∃ held, Attaches host.engine.code held host.engine.world (host.sightings operation)
      (host.step operation).engine.world) ∨
    host.sightings operation = [] ∧
      (host.step operation).engine.world.instance? program =
        host.engine.world.instance? program ∧
      host.engine.world.heap.Retains (host.step operation).engine.world.heap := by
  -- Code runs only where a stack is driven; what else an operation does is looked at one by one.
  cases rides : host.rides operation with
  | some ride => exact Or.inl ⟨_, (reachable.rides_attends rides).1⟩
  | none =>
      refine Or.inr ⟨by simp only [sightings, rides], ?_⟩
      have unchanged : host.step operation = host →
          (host.step operation).engine.world.instance? program =
              host.engine.world.instance? program ∧
            host.engine.world.heap.Retains (host.step operation).engine.world.heap := by
        intro same
        rw [same]
        exact ⟨rfl, .refl _⟩
      cases operation with
      | call | callMethod | resume => exact unchanged (step_refused rfl rides)
      | register decl =>
          simp only [Host.step, Engine.register]
          cases host.engine.code.classes.register decl <;> exact ⟨rfl, .refl _⟩
      | compile name source =>
          simp only [Host.step, Engine.compile]
          split <;> exact ⟨rfl, .refl _⟩
      | unload unloaded =>
          simp only [Host.step, Engine.unload]
          cases host.engine.code.programs.get? unloaded with
          | none => exact ⟨rfl, .refl _⟩
          | some found =>
              have apart : program ≠ unloaded := by
                rintro rfl
                exact other rfl
              exact ⟨host.engine.world.instance?_withoutInstance apart, .refl _⟩
      | set setting value => cases setting <;> exact ⟨rfl, .refl _⟩
      | newInstance className =>
          simp only [Host.step, Engine.newInstance]
          cases host.engine.code.classes.members? className with
          | none => exact ⟨rfl, .refl _⟩
          | some fields => exact ⟨rfl, .allocate reusable _⟩
      | bindInstance bound handle =>
          simp only [Host.step, Engine.bindInstance]
          split
          · exact ⟨rfl, .refl _⟩
          · split
            · exact ⟨rfl, .refl _⟩
            · exact ⟨(World.instance?_withInstance ..).trans (if_neg (Ne.symm leaves)), .refl _⟩
      | changeHeap change => exact ⟨rfl, leaves⟩
      | newStack => exact ⟨rfl, .refl _⟩
      | abort place =>
          simp only [Host.step]
          split <;> exact ⟨rfl, .refl _⟩
      | copy place =>
          simp only [Host.step]
          split <;> exact ⟨rfl, .refl _⟩
      | reload place =>
          simp only [Host.step]
          split
          · rename_i stack _
            cases done : host.engine.restore stack.unbound with
            | error error => exact ⟨rfl, .refl _⟩
            | ok restored =>
                obtain ⟨engine, restored⟩ := restored
                obtain ⟨_, rfl, _⟩ | ⟨_, _, rfl, _⟩ := Engine.restore_cases done <;>
                  exact ⟨rfl, .refl _⟩
          · exact ⟨rfl, .refl _⟩

theorem step_grows (host : Host) (operation : Operation) :
    host.engine.code.classes.Grows (host.step operation).engine.code.classes := by
  cases sets : operation.isSetup with
  | true => exact (step_loads sets).1
  | false =>
      rw [(step_twin sets).code]
      exact .refl _

end Host

structure Engine.Serves (engine : Engine) (program : ProgramId) (log : List Attachment) : Prop where
  reusable : engine.world.heap.Reusable
  served : engine.world.Served engine.code.classes program log ∨
    (log = [] ∨ ∃ first, Attachment.Shared engine.code.classes first log) ∧
      program.number ≤ engine.ids.lastProgram ∧ engine.code.programs.get? program = none

theorem Engine.Serves.unload {engine after : Engine} {program : ProgramId} {log : List Attachment}
    {known : List Function} (serves : engine.Serves program log) (knows : engine.Knows known)
    (unloaded : engine.unload program = .ok after) : after.Serves program log := by
  obtain ⟨reusable, served⟩ := serves
  unfold Engine.unload at unloaded
  split at unloaded
  · cases unloaded
  · rename_i loaded there
    cases unloaded
    refine ⟨reusable, Or.inr ⟨?_, ?_, ?_⟩⟩
    · rcases served with (⟨nothing, _⟩ | ⟨first, serves⟩) | ⟨shared, _⟩
      · exact Or.inl nothing
      · exact Or.inr ⟨first, serves.toShared⟩
      · exact shared
    · obtain ⟨among, named⟩ := Programs.mem_of_get? there
      exact named ▸ knows.numbered loaded among
    · rw [Programs.get?_eq_none_iff]
      exact fun other kept => of_decide_eq_true (List.mem_filter.mp kept).2

namespace Host

variable {program : ProgramId} {log : List Sighting} {given : List Attachment} {host : Host}
  {operation : Operation}

theorem Reachable.serves_step (reachable : host.Reachable) (serves : host.engine.Serves program given)
    (leaves : host.leaves program operation) : (host.step operation).engine.Serves program
      (given ++ (host.sightings operation).filterMap (Sighting.started? program)) := by
  obtain ⟨known, resting⟩ := reachable.resting
  -- Unloading the program ends what it keeps. Everything else leaves its object, or gives it one.
  by_cases unloads : operation = .unload program
  · subst unloads
    have unseen : host.sightings (.unload program) = [] := rfl
    rw [unseen, List.filterMap_nil, List.append_nil]
    simp only [Host.step]
    cases unloaded : host.engine.unload program with
    | error error => exact serves
    | ok engine => exact serves.unload resting.knows unloaded
  · obtain ⟨reusable, served⟩ := serves
    have grows := step_grows host operation
    have still : ∀ {given : List Attachment},
        (given = [] ∨ ∃ first, Attachment.Shared host.engine.code.classes first given) →
          given = [] ∨
            ∃ first, Attachment.Shared (host.step operation).engine.code.classes first given :=
      fun shared => shared.imp_right (Exists.imp fun _ shared => shared.later grows)
    rcases reachable.step_objects reusable leaves unloads with ⟨held, attaches⟩ |
      ⟨unseen, same, retains⟩
    · refine ⟨(attaches.retains reusable).reusable reusable, ?_⟩
      rcases served with served | ⟨shared, spent, gone⟩
      · exact Or.inl ((served.along attaches reusable).later grows)
      · rw [attaches.none_of_gone gone, List.append_nil]
        exact Or.inr ⟨still shared, (step_turn host operation).gone spent gone⟩
    · rw [unseen, List.filterMap_nil, List.append_nil]
      refine ⟨retains.reusable reusable, ?_⟩
      rcases served with served | ⟨shared, spent, gone⟩
      · exact Or.inl ((served.retained same retains).later grows)
      · exact Or.inr ⟨still shared, (step_turn host operation).gone spent gone⟩

theorem restoring_serves (serves : host.engine.Serves program given) (stack : Stack) :
    (host.restoring stack).engine.Serves program given := by
  obtain ⟨reusable, served⟩ := serves
  unfold restoring
  cases done : host.engine.restore stack.unbound with
  | error error => exact ⟨reusable, served⟩
  | ok restored =>
      obtain ⟨engine, restored⟩ := restored
      obtain ⟨_, rfl, _⟩ | ⟨_, _, rfl, _⟩ := Engine.restore_cases done
      · exact ⟨reusable, served⟩
      · exact ⟨reusable,
          served.imp_left fun served => served.retained rfl (.refl host.engine.world.heap)⟩

theorem Serving.serves (serving : Serving program log host) :
    host.engine.Serves program (log.filterMap (Sighting.started? program)) := by
  induction serving with
  | fresh => exact ⟨⟨List.nodup_nil, nofun⟩, Or.inl (Or.inl ⟨rfl, rfl⟩)⟩
  | step operation serving leaves ih =>
      rw [List.filterMap_append]
      exact serving.reachable.serves_step ih leaves
  | @loaded log saver host stack _ _ _ _ ih =>
      have unseen : (stack.root.attachments.map Sighting.loaded).filterMap
          (Sighting.started? program) = [] := by
        simp [Sighting.started?]
      rw [List.filterMap_append, unseen, List.append_nil]
      exact restoring_serves ih stack
  | dropped place _ ih => exact ih

theorem Serving.followed (serving : Serving program log host) :
    ∀ stack ∈ host.executions, stack.root.Followed log := by
  induction serving with
  | fresh => exact List.forall_mem_nil _
  | step operation serving _ ih => exact serving.reachable.step_followed ih
  | dropped place _ ih => exact fun stack among => ih stack (List.mem_of_mem_eraseIdx among)
  | @loaded log saver host stack serving saver among accepts ih =>
      obtain ⟨known, resting⟩ := serving.reachable.resting
      obtain ⟨before, saved⟩ := saver.resting
      have joins := saved.toFormed.moved resting.toFormed among accepts.loaded accepts.same
      rcases restoring_eq resting.knows.fits joins accepts.loaded with same | taken
      · rw [same]
        exact fun other kept => (ih other kept).mono _
      · rw [taken]
        refine List.forall_mem_append.mpr
          ⟨fun other kept => (ih other kept).mono _, List.forall_mem_singleton.mpr ?_⟩
        exact fun method attached =>
          Or.inr (List.mem_append_right _ (List.mem_map_of_mem attached))

theorem Serving.continued_of_step (serving : Serving program log host) {method : Attachment}
    (among : .continued method ∈ host.sightings operation) :
    .started method ∈ log ∨ .loaded method ∈ log := by
  cases rides : host.rides operation with
  | none =>
      simp only [sightings, rides] at among
      cases among
  | some ride =>
      exact ridden_followed serving.followed rides method
        ((serving.reachable.rides_attends rides).1.held_of_continued among)

theorem Serving.ordered (serving : Serving program log host) : Sighting.Ordered log := by
  induction serving with
  | fresh => exact .nil
  | step operation serving _ ih => exact ih.append fun _ among => serving.continued_of_step among
  | loaded _ _ _ _ ih => exact ih.append fun method among => by simp at among
  | dropped _ _ ih => exact ih

def seen : List Operation → Host → List Sighting
  | [], _ => []
  | operation :: rest, host => host.sightings operation ++ seen rest (host.step operation)

theorem Serving.along (operations : List Operation) (serving : Serving program log host)
    (leaves : ∀ operation ∈ operations, ∀ host : Host, host.leaves program operation) :
    Serving program (log ++ host.seen operations) (operations.foldl Host.step host) := by
  induction operations generalizing log host with
  | nil =>
      rw [seen, List.append_nil]
      exact serving
  | cons operation rest ih =>
      obtain ⟨here, behind⟩ := List.forall_mem_cons.mp leaves
      rw [seen, ← List.append_assoc]
      exact ih (.step operation serving (here host)) behind

theorem Serving.after (operations : List Operation)
    (leaves : ∀ operation ∈ operations, ∀ host : Host, host.leaves program operation) :
    Serving program (Host.seen operations {}) (Host.after operations) := by
  have serving := Serving.fresh.along operations leaves
  rw [List.nil_append] at serving
  exact serving

end Host

/-- The methods of a program that are called without a receiver, whatever else is done, while the host
neither chooses its object nor frees objects or changes their classes. The program keeps the object
that was `this` of the first one, as long as it is loaded. Two of them come to their bodies with the
same `this` exactly if the class of the first one is, or derives from, the classes of both. A body that
goes on has the `this` that it came with, or that it was loaded with. -/
theorem free_calls_share_object {program : ProgramId} {log : List Sighting} {host : Host}
    {first : Attachment} {rest : List Attachment} (serving : Host.Serving program log host)
    (mine : log.filterMap (Sighting.started? program) = first :: rest) :
    ((host.engine.code.programs.get? program).isSome = true →
      host.engine.world.instance? program = some first.this ∧
        ∃ object, host.engine.world.heap.get? first.this = some object ∧
          object.className = first.owner) ∧
    ((first :: rest).Pairwise fun earlier later => (earlier.this = later.this ↔
      host.engine.code.classes.derives first.owner earlier.owner = true ∧
        host.engine.code.classes.derives first.owner later.owner = true)) ∧
    Sighting.Ordered log := by
  have served := serving.serves.served
  rw [mine] at served
  refine ⟨fun loaded => ?_, ?_, serving.ordered⟩
  · rcases served with (⟨nothing, _⟩ | ⟨founder, serves⟩) | ⟨_, _, gone⟩
    · cases nothing
    · obtain rfl := Option.some.inj serves.founder
      exact ⟨serves.bound, serves.object⟩
    · rw [gone] at loaded
      cases loaded
  · obtain ⟨founder, shared⟩ : ∃ founder,
        Attachment.Shared host.engine.code.classes founder (first :: rest) := by
      rcases served with (⟨nothing, _⟩ | ⟨founder, serves⟩) | ⟨nothing | shared, _⟩
      · cases nothing
      · exact ⟨founder, serves.toShared⟩
      · cases nothing
      · exact shared
    obtain rfl := Option.some.inj shared.founder
    exact shared.agree

def yard : List Operation :=
  [.register { name := "Tool" },
    .register { name := "Pump", parent := some "Tool", fields := [⟨"strokes", .int, false⟩] },
    .register { name := "Door", fields := [⟨"passes", .int, false⟩] },
    .compile "yard" "int Tool::rest() \x7b return 0; \x7d
      public int Pump::lift() \x7b strokes = strokes + 1; return strokes; \x7d
      int Door::pass() \x7b wait(1); passes = passes + 1; return passes; \x7d",
    .compile "shift" "int work() \x7b return lift() + lift(); \x7d",
    .newStack ⟨1⟩, .newStack ⟨2⟩,
    .call 0 "lift" [] .unlimited, .call 0 "rest" [] .unlimited, .call 0 "pass" [] .unlimited,
    .call 1 "work" [] .unlimited, .reload 0, .resume 0 .unlimited, .call 0 "pass" [] .unlimited]

theorem free_calls_share_object_of_yard :
    let pass (this : Handle) : Attachment := ⟨⟨1⟩, ⟨3⟩, "Door", this⟩
    let lift : Attachment := ⟨⟨1⟩, ⟨2⟩, "Pump", ⟨0, 0⟩⟩
    let rest : Attachment := ⟨⟨1⟩, ⟨1⟩, "Tool", ⟨0, 0⟩⟩
    let log : List Sighting := [.started lift, .started rest, .started (pass ⟨1, 0⟩), .started lift,
      .started lift, .continued (pass ⟨1, 0⟩), .started (pass ⟨2, 0⟩)]
    Host.Serving ⟨1⟩ log (Host.after yard) ∧
    (Host.after yard).engine.world.instance? ⟨1⟩ = some lift.this ∧
    ([lift, rest, pass ⟨1, 0⟩, lift, lift, pass ⟨2, 0⟩].Pairwise fun earlier later =>
      (earlier.this = later.this ↔
        (Host.after yard).engine.code.classes.derives "Pump" earlier.owner = true ∧
          (Host.after yard).engine.code.classes.derives "Pump" later.owner = true)) ∧
    Sighting.Ordered log := by
  intro pass lift rest log
  have serving : Host.Serving ⟨1⟩ (Host.seen yard {}) (Host.after yard) :=
    Host.Serving.after yard (by simp [yard, Host.leaves])
  obtain ⟨seen, loaded⟩ : Host.seen yard {} = log ∧
      ((Host.after yard).engine.code.programs.get? ⟨1⟩).isSome = true := by
    decide +kernel
  rw [seen] at serving
  obtain ⟨kept, agree, ordered⟩ := @free_calls_share_object ⟨1⟩ log (Host.after yard) lift
    [rest, pass ⟨1, 0⟩, lift, lift, pass ⟨2, 0⟩] serving rfl
  exact ⟨serving, (kept loaded).1, agree, ordered⟩

def yardWithoutParent : List Operation :=
  [.register { name := "Tool" },
    .register { name := "Pump", fields := [⟨"strokes", .int, false⟩] },
    .compile "yard" "int Tool::rest() \x7b return 0; \x7d
      int Pump::lift() \x7b strokes = strokes + 1; return strokes; \x7d",
    .newStack ⟨1⟩, .call 0 "rest" [] .unlimited,
    .call 0 "lift" [] .unlimited, .call 0 "lift" [] .unlimited]

/-- The program keeps the tool, so each call of the method of the pump makes a new one. -/
theorem later_class_not_shared :
    Host.Serving ⟨1⟩ (Host.seen yardWithoutParent {}) (Host.after yardWithoutParent) ∧
    ¬ ((Host.seen yardWithoutParent {}).filterMap (Sighting.started? ⟨1⟩)).Pairwise
      (fun earlier later => earlier.owner = later.owner → earlier.this = later.this) ∧
    (Host.after yardWithoutParent).engine.world.heap.slots.length = 3 := by
  obtain ⟨seen, slots⟩ : Host.seen yardWithoutParent {} =
        [.started ⟨⟨1⟩, ⟨1⟩, "Tool", ⟨0, 0⟩⟩, .started ⟨⟨1⟩, ⟨2⟩, "Pump", ⟨1, 0⟩⟩,
          .started ⟨⟨1⟩, ⟨2⟩, "Pump", ⟨2, 0⟩⟩] ∧
      (Host.after yardWithoutParent).engine.world.heap.slots.length = 3 := by
    decide +kernel
  refine ⟨Host.Serving.after yardWithoutParent (by simp [yardWithoutParent, Host.leaves]), ?_, slots⟩
  rw [seen]
  decide

end ScriptEngine
