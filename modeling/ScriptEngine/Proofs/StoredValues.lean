import ScriptEngine.Proofs.Keeping
import ScriptEngine.Proofs.Storing
/-! Store typing. On every host that provides nothing but what fits, the variables of all calls in
progress and the members of all objects hold values of their types, whatever is called, suspended,
saved, loaded and gone on with. Loading a stack converts nothing: a single-precision variable holds
there what its text is read as, which need not be a single-precision number. -/

namespace ScriptEngine

def Kind.range? : Kind → Option (Int × Int)
  | .byte => some (-2 ^ 7, 2 ^ 7 - 1)
  | .short => some (-2 ^ 15, 2 ^ 15 - 1)
  | .char => some (0, 2 ^ 16 - 1)
  | .int => some (-2 ^ 31, 2 ^ 31 - 1)
  | .void | .long | .float | .double | .bool | .string | .array | .object | .null => none

theorem bmod_eq_self_iff {width : Nat} {number : Int} : number.bmod (2 ^ (width + 1)) = number ↔
    -2 ^ width ≤ number ∧ number ≤ 2 ^ width - 1 := by
  have positive : 0 < 2 ^ width := Nat.pow_pos (by decide)
  have double : ((2 ^ (width + 1) : Nat) : Int) = 2 * 2 ^ width := by
    rw [Nat.pow_succ]
    push_cast
    ring
  have lower := @Int.le_bmod number (2 ^ (width + 1)) (by omega)
  have upper := @Int.bmod_lt number (2 ^ (width + 1)) (by omega)
  rw [double] at lower upper
  constructor
  · intro same
    rw [same] at lower upper
    omega
  · intro between
    apply Int.bmod_eq_of_le
    · rw [double]
      omega
    · rw [double]
      omega

theorem Int64.toNat_toUInt64 (number : Int64) :
    (number.toUInt64.toNat : Int) = number.toInt % (2 ^ 64 : Nat) := by
  rw [show number.toInt = (number.toUInt64.toNat : Int).bmod (2 ^ 64) from
    number.toBitVec.toInt_eq_toNat_bmod, Int.bmod_emod]
  exact (Int.emod_eq_of_lt (Int.natCast_nonneg _) (Int.ofNat_lt.mpr number.toUInt64.toNat_lt)).symm

theorem Value.wrap_eq_self_iff {kind : Kind} {low high : Int}
    (ranged : kind.range? = some (low, high)) (number : Int64) :
    wrap kind number = number ↔ low ≤ number.toInt ∧ number.toInt ≤ high := by
  rw [← Int64.toInt_inj]
  cases kind with
  | byte =>
      cases ranged
      rw [wrap, Int8.toInt_toInt64, Int64.toInt_toInt8]
      exact bmod_eq_self_iff
  | short =>
      cases ranged
      rw [wrap, Int16.toInt_toInt64, Int64.toInt_toInt16]
      exact bmod_eq_self_iff
  | int =>
      cases ranged
      rw [wrap, Int32.toInt_toInt64, Int64.toInt_toInt32]
      exact bmod_eq_self_iff
  | char =>
      cases ranged
      have lower := number.le_toInt
      have upper := number.toInt_lt
      have unsigned := Int64.toNat_toUInt64 number
      rw [wrap, UInt64.toNat_toUInt16, Int64.toInt_ofNat_of_lt (by omega)]
      omega
  | void | long | float | double | bool | string | array | object | null => cases ranged

/-- Where the kind of a variable has bounds, it holds an integer between them. -/
def Variable.InRange (var : Variable) : Prop :=
  ∀ low high, var.type.kind.range? = some (low, high) →
    ∃ number, var.value = .int number ∧ low ≤ number.toInt ∧ number.toInt ≤ high

def Json.ReadsSingle (number : Float) : Prop := Binary64.toSingle number = number →
  ∀ read, (Json.ofFloat number).float? = some read → Binary64.toSingle read = read

theorem Value.convert?_reread {value read : Value} {type : DataType}
    (kept : value.convert? type = some value)
    (reads : type.kind = .float → ∀ number ∈ value.floats, Json.ReadsSingle number)
    (again : value.reread = some read) : read.convert? type = some read := by
  cases value with
  | float number =>
      obtain ⟨other, found, rfl⟩ := Option.map_eq_some_iff.mp again
      cases kind : type.kind with
      | float =>
          simp only [convert?, kind, Kind.isIntegral, Bool.false_eq_true, if_false,
            Option.some.injEq, Value.float.injEq] at kept ⊢
          exact reads kind number (List.mem_singleton_self _) kept other found
      | double => simp [convert?, kind, Kind.isIntegral]
      | void | byte | short | char | int | long | bool | string | array | object | null =>
          simp [convert?, kind, Kind.isIntegral] at kept
  | void | bool | int | string | object | null =>
      cases again
      exact kept

variable {exact : Prop}

namespace Variable.Stored

variable {var read : Variable}

theorem inRange (stored : var.Stored exact) : var.InRange := by
  intro low high ranged
  have integral : var.type.kind.isIntegral = true := by
    cases kind : var.type.kind <;> rw [kind] at ranged <;> first | rfl | cases ranged
  have kept := stored fun single => by
    rw [single] at ranged
    cases ranged
  cases held : var.value with
  | int number =>
      rw [held] at kept
      simp only [Value.convert?, integral, if_true, Option.some.injEq, Value.int.injEq] at kept
      exact ⟨number, rfl, (Value.wrap_eq_self_iff ranged number).mp kept⟩
  | float number => simp [held, Value.convert?, integral] at kept
  | void | bool | string | object | null =>
      cases kind : var.type.kind <;>
        simp_all [Value.convert?, Kind.isIntegral, Kind.isReference]

theorem rebind (stored : var.Stored exact) (function : Function) :
    (Restoration.rebind function var).Stored exact := by
  unfold Restoration.rebind
  split
  · exact stored
  · split <;> exact stored
  · exact stored

theorem reread (stored : var.Stored exact)
    (reads : exact → ∀ number ∈ var.floats, Json.ReadsSingle number)
    (done : var.reread = some read) : read.Stored exact := by
  obtain ⟨value, again, rfl⟩ := Option.map_eq_some_iff.mp done
  intro counts
  exact Value.convert?_reread (stored counts) (fun single => reads (counts single)) again

end Variable.Stored

theorem mem_of_mapM {α β : Type} {read : α → Option β} {values : List α} {others : List β}
    (done : values.mapM read = some others) :
    ∀ other ∈ others, ∃ value ∈ values, read value = some other := by
  induction values generalizing others with
  | nil =>
      cases done
      exact nofun
  | cons value rest ih =>
      simp only [List.mapM_cons, Option.bind_eq_bind, Option.bind_eq_some_iff, Option.pure_def]
        at done
      obtain ⟨first, found, more, further, same⟩ := done
      cases same
      rw [List.forall_mem_cons]
      refine ⟨⟨value, List.mem_cons_self .., found⟩, fun other among => ?_⟩
      obtain ⟨value, among, found⟩ := ih further other among
      exact ⟨value, List.mem_cons_of_mem _ among, found⟩

namespace Frame

mutual

theorem Stored.unbound : ∀ {frame : Frame}, frame.Stored exact → frame.unbound.Stored exact
  | ⟨state, vars, temps, children⟩, stored => by
      obtain ⟨own, ordered, below⟩ := stored_iff.mp stored
      obtain ⟨slots, below⟩ := unboundIn_stored below
      rw [Frame.unbound, stored_iff]
      exact ⟨List.forall_mem_map.mpr own, slots ▸ ordered, below⟩

theorem unboundIn_stored : ∀ {children : List (Nat × Frame)},
    (∀ entry ∈ children, entry.2.Stored exact) →
      (unboundIn children).map Prod.fst = children.map Prod.fst ∧
        ∀ entry ∈ unboundIn children, entry.2.Stored exact
  | [], _ => ⟨rfl, nofun⟩
  | (slot, child) :: rest, below => by
      rw [List.forall_mem_cons] at below
      obtain ⟨slots, further⟩ := unboundIn_stored below.2
      rw [unboundIn, List.forall_mem_cons, List.map_cons, List.map_cons, slots]
      exact ⟨rfl, Stored.unbound below.1, further⟩

end

mutual

theorem Stored.reread : ∀ {frame read : Frame}, frame.Stored exact →
    (exact → ∀ number ∈ frame.floats, Json.ReadsSingle number) → frame.reread = some read →
      read.Stored exact
  | ⟨state, vars, temps, children⟩, read, stored, reads, done => by
      obtain ⟨own, ordered, below⟩ := stored_iff.mp stored
      simp only [Frame.reread, Option.bind_eq_bind, Option.bind_eq_some_iff, Option.pure_def]
        at done
      obtain ⟨others, vars_read, values, _, inner, children_read, same⟩ := done
      cases same
      simp only [floats, List.forall_mem_append, List.forall_mem_flatMap] at reads
      refine stored_iff.mpr ⟨fun other among => ?_, ?_, ?_⟩
      · obtain ⟨var, among, found⟩ := mem_of_mapM vars_read other among
        exact (own var among).reread (fun holds => (reads holds).1.1 var among) found
      · rw [slots_rereadIn children_read]
        exact ordered
      · exact rereadIn_stored below (fun holds => (reads holds).2) children_read

theorem rereadIn_stored : ∀ {children read : List (Nat × Frame)},
    (∀ entry ∈ children, entry.2.Stored exact) →
      (exact → ∀ number ∈ floatsIn children, Json.ReadsSingle number) →
        rereadIn children = some read → ∀ entry ∈ read, entry.2.Stored exact
  | [], read, _, _, done => by
      cases done
      exact nofun
  | (slot, child) :: rest, read, below, reads, done => by
      rw [List.forall_mem_cons] at below
      simp only [rereadIn, Option.bind_eq_bind, Option.bind_eq_some_iff, Option.pure_def] at done
      obtain ⟨first, child_read, more, rest_read, same⟩ := done
      cases same
      simp only [floatsIn, List.forall_mem_append] at reads
      rw [List.forall_mem_cons]
      exact ⟨Stored.reread below.1 (fun holds => (reads holds).1) child_read,
        rereadIn_stored below.2 (fun holds => (reads holds).2) rest_read⟩

end

theorem Stored.restore {frame : Frame} (stored : frame.Stored exact) (code : Code)
    (context : ContextId) (guards : GuardTable) :
    (Restoration.restore code context frame guards).1.Stored exact := by
  have steady : Restoration.Steady fun frame _ => frame.Stored exact :=
    ⟨fun stored found => stored.child? found, fun slot stored also => stored.withChild slot also⟩
  refine steady.restore (fun function _ stored => ?_) frame guards stored
  exact stored.withVars (List.forall_mem_map.mpr fun var among =>
    (stored.own var among).rebind function)

end Frame

namespace Engine

variable {engine : Engine} {stack : Stack} {gate : Gate}

theorem drive_stored (stored : stack.root.Stored exact) :
    (engine.drive stack gate).stack.root.Stored exact := by
  have driving := drive_driving engine stack gate
  generalize engine.drive stack gate = driven at driving ⊢
  cases driving with
  | refused => exact stored
  | unentered => exact Frame.stored_fresh
  | @entered entry function kept =>
      have left := run_leaves (entry.invocation function stack.program) ⟨engine.world, gate⟩
        engine.code stack.context engine.code.maxCallDepth stored
      generalize Invocation.run _ _ _ _ _ _ = ended at left ⊢
      obtain ⟨progress, after⟩ := ended
      cases progress with
      | done | failed => exact Frame.stored_fresh
      | suspended root => exact left

theorem Drives.stored {driven : Driven} (drives : engine.Drives stack gate driven)
    (stored : stack.root.Stored exact) (objects : engine.world.heap.All (Object.Stored exact)) :
    driven.stack.root.Stored exact ∧ driven.engine.world.heap.All (Object.Stored exact) := by
  cases drives with
  | refused => exact ⟨stored, objects⟩
  | started => exact ⟨drive_stored Frame.stored_fresh, (drive_effects ..).stored objects⟩
  | resumed => exact ⟨drive_stored stored, (drive_effects ..).stored objects⟩

end Engine

namespace Host

variable (exact) in
/-- What a host may do. The members of its objects that it writes, and those of the objects it
provides, hold values of their types. -/
def furnishes (host : Host) : Operation → Prop
  | .changeHeap change => ∀ handle object,
      (change host.engine.world.heap).get? handle = some object → ∀ field ∈ object.fields,
        field.Stored exact ∨
          ∃ before, host.engine.world.heap.get? handle = some before ∧ field ∈ before.fields
  | _ => True

variable (exact) in
def furnishesAll : Host → List Operation → Prop
  | _, [] => True
  | host, operation :: rest =>
      host.furnishes exact operation ∧ (host.step operation).furnishesAll rest

theorem furnishes_write {host : Host} {handle : Handle} {name : String} {value : Value}
    (fits : ∀ object field, host.engine.world.heap.get? handle = some object →
      object.field? name = some field → value.convert? field.type = some value) :
    host.furnishes exact (.changeHeap fun heap => heap.update handle fun object =>
      object.updateField name fun field => field.set value) := by
  intro other object live field among
  rw [Heap.get?_update] at live
  split at live
  · rename_i same
    subst same
    obtain ⟨before, held, rfl⟩ := Option.map_eq_some_iff.mp live
    rcases Variables.mem_updateFirst among with kept | ⟨old, found, rfl⟩
    · exact Or.inr ⟨before, held, kept⟩
    · exact Or.inl (Variable.stored_set (fits before old held found))
  · exact Or.inr ⟨object, live, among⟩

variable (exact) in
/-- The hosts that come about while nothing is provided but what fits. Stacks may be loaded that were
saved on one of them, at any time; with `exact`, their single-precision numbers are read as such. -/
inductive Furnished : Host → Prop
  | fresh : Furnished {}
  | step {host : Host} (operation : Operation) : Furnished host → host.furnishes exact operation →
      Furnished (host.step operation)
  | loaded {saver host : Host} {saved stack : Stack} : Furnished saver → Furnished host →
      saved ∈ saver.executions → saved.fits = true →
      Snapshot.loadStack? (Snapshot.saveStack saved) = some stack →
      (exact → ∀ number ∈ saved.root.floats, Json.ReadsSingle number) →
      Furnished { host with executions := host.executions ++ [stack] }
  | dropped {host : Host} (place : Nat) : Furnished host →
      Furnished { host with executions := host.executions.eraseIdx place }

theorem Furnished.steps (operations : List Operation) : ∀ {host : Host}, host.Furnished exact →
    host.furnishesAll exact operations → (operations.foldl Host.step host).Furnished exact := by
  induction operations with
  | nil => exact fun furnished _ => furnished
  | cons operation rest ih =>
      intro host furnished furnishes
      exact ih (furnished.step operation furnishes.1) furnishes.2

variable (exact) in
structure Stores (host : Host) : Prop where
  executions : ∀ stack ∈ host.executions, stack.root.Stored exact
  objects : host.engine.world.heap.All (Object.Stored exact)

namespace Stores

variable {host saver : Host}

theorem drive (stores : host.Stores exact) {gate : Gate} {run : Stack → Driven}
    (drives : ∀ stack, host.engine.Drives stack gate (run stack)) (place : Nat) :
    (host.drive place run).engine.world.heap.All (Object.Stored exact) := by
  unfold Host.drive
  split
  · rename_i stack found
    exact ((drives stack).stored (stores.executions stack (List.mem_of_getElem? found))
      stores.objects).2
  · exact stores.objects

theorem step_objects (stores : host.Stores exact) {operation : Operation}
    (furnishes : host.furnishes exact operation) :
    (host.step operation).engine.world.heap.All (Object.Stored exact) := by
  cases operation with
  | register | compile | unload | set =>
      rw [(step_loads rfl).2.1]
      exact stores.objects
  | newInstance className =>
      simp only [step, Engine.newInstance]
      cases members : host.engine.code.classes.members? className with
      | none => exact stores.objects
      | some fields => exact Heap.allocate_all stores.objects (Object.stored_made members)
  | bindInstance program handle =>
      simp only [step, Engine.bindInstance]
      split
      · exact stores.objects
      · split <;> exact stores.objects
  | changeHeap change =>
      refine .of_get? fun handle object live field among => ?_
      rcases furnishes handle object live field among with provided | ⟨before, held, kept⟩
      · exact provided
      · exact stores.objects.get? held field kept
  | newStack program => exact stores.objects
  | call place name args gate => exact stores.drive (fun _ => Engine.start_drives ..) place
  | callMethod place handle name args gate =>
      exact stores.drive (fun _ => Engine.callMethod_drives ..) place
  | resume place gate => exact stores.drive (fun _ => .resumed) place
  | abort place | copy place =>
      simp only [step]
      split <;> exact stores.objects
  | reload place =>
      simp only [step]
      split
      · split
        · rename_i restored
          obtain ⟨_, rfl, _⟩ | ⟨_, _, rfl, _⟩ := Engine.restore_cases restored
          · exact stores.objects
          · exact stores.objects
        · exact stores.objects
      · exact stores.objects

theorem step (stores : host.Stores exact) {operation : Operation}
    (furnishes : host.furnishes exact operation) : (host.step operation).Stores exact where
  objects := stores.step_objects furnishes
  executions := by
    refine step_stacks stores.executions (fun _ _ => Frame.stored_fresh)
      (fun _ stored drives => (drives.stored stored stores.objects).1)
      (fun _ => Frame.stored_fresh) (fun {stack} {engine} {restored} stored done => ?_)
    obtain ⟨_, _, rfl⟩ | ⟨_, _, _, rfl⟩ := Engine.restore_cases done
    · exact stored.unbound
    · exact stored.unbound.restore ..

theorem loaded (stores : host.Stores exact) (saving : saver.Stores exact) {saved stack : Stack}
    (among : saved ∈ saver.executions) (fits : saved.fits = true)
    (loads : Snapshot.loadStack? (Snapshot.saveStack saved) = some stack)
    (reads : exact → ∀ number ∈ saved.root.floats, Json.ReadsSingle number) :
    Stores exact { host with executions := host.executions ++ [stack] } where
  objects := stores.objects
  executions := by
    have stored := saving.executions saved among
    have said : Snapshot.loadStack? (Snapshot.saveStack saved) = _ :=
      (Snapshot.reads_stack fits stored.ordered).load
    rw [said, Snapshot.within] at loads
    split at loads
    · simp only [Stack.reread, Option.bind_eq_bind, Option.bind_eq_some_iff, Option.pure_def]
        at loads
      obtain ⟨entry, _, root, read, same⟩ := loads
      cases same
      rw [List.forall_mem_append, List.forall_mem_singleton]
      exact ⟨stores.executions, stored.reread reads read⟩
    · cases loads

end Stores

theorem Furnished.stores {host : Host} (furnished : host.Furnished exact) : host.Stores exact := by
  induction furnished with
  | fresh => exact ⟨nofun, nofun⟩
  | step operation _ furnishes ih => exact ih.step furnishes
  | loaded _ _ among fits loads reads saving ih => exact ih.loaded saving among fits loads reads
  | dropped place _ ih =>
      exact ⟨fun stack among => ih.executions stack (List.mem_of_mem_eraseIdx among), ih.objects⟩

end Host

/-- Whatever is done, every variable of a call in progress and every member of an object holds a value
of its type, single-precision ones if all numbers of that precision are read as such; and integers
of the narrow kinds lie within the bounds of their kind in any case. -/
theorem stored_values_fit {host : Host} (furnished : host.Furnished exact) :
    (∀ stack ∈ host.executions, ∀ frame ∈ stack.root.tree, ∀ var ∈ frame.vars,
      ((var.type.kind = .float → exact) → var.value.convert? var.type = some var.value) ∧
        var.InRange) ∧
    ∀ handle object, host.engine.world.heap.get? handle = some object →
      ∀ field ∈ object.fields,
        ((field.type.kind = .float → exact) → field.value.convert? field.type = some field.value) ∧
          field.InRange := by
  have stores := furnished.stores
  constructor
  · intro stack among frame inside var held
    have stored := (stores.executions stack among).vars frame inside var held
    exact ⟨stored, stored.inRange⟩
  · intro handle object live field held
    have stored := stores.objects.get? live field held
    exact ⟨stored, stored.inRange⟩

def narrowing : List Operation :=
  [.register { name := "Tank", fields := [⟨"level", .ofKind .byte, false⟩] },
    .compile "tank" "class Tank \x7b
      int fill(short n) \x7b
        float part = n / 3.0f; byte small = n; char wide = 0 - 1; level = n + part;
        wait(1);
        return small;
      \x7d
    \x7d",
    .newInstance "Tank",
    .changeHeap fun heap => heap.update ⟨0, 0⟩ fun object =>
      object.updateField "level" fun field => field.set (.int 7),
    .newStack ⟨1⟩,
    .callMethod 0 ⟨0, 0⟩ "fill" [.holding "" .int (.int 70000)] .unlimited]

open Snapshot in
theorem stored_values_fit_of_narrowing : ∃ saved ∈ (Host.after narrowing).executions, ∃ loaded,
    loadStack? (saveStack saved) = some loaded ∧
    (loaded.root.vars.map fun var => (var.name, var.value.asInt?)) =
      [("n", some 4464), ("this", none), ("part", none), ("small", some 112),
        ("wide", some 65535)] ∧
    ∀ stack ∈ (Host.after narrowing).executions ++ [loaded], ∀ frame ∈ stack.root.tree,
      ∀ var ∈ frame.vars, var.value.convert? var.type = some var.value ∧ var.InRange := by
  have typed : ((Host.after (narrowing.take 3)).engine.world.heap.get? ⟨0, 0⟩).bind
      (fun object => (object.field? "level").map Variable.type) = some (.ofKind .byte) := by
    decide +kernel
  have furnished : (Host.after narrowing).Furnished True := by
    refine .steps _ .fresh ⟨trivial, trivial, trivial,
      Host.furnishes_write fun object field live found => ?_, trivial, trivial, trivial⟩
    have live : (Host.after (narrowing.take 3)).engine.world.heap.get? ⟨0, 0⟩ = some object := live
    rw [live, Option.bind_some, found, Option.map_some, Option.some.injEq] at typed
    rw [typed]
    rfl
  have shown : ((Host.after narrowing).executions.any fun saved => saved.fits &&
      decide ((encodeStack saved).depth ≤ maxLevels) && decide (saved.root.floats = [1488]) &&
      saved.reread.any fun loaded => decide
        ((loaded.root.vars.map fun var => (var.name, var.value.asInt?)) =
          [("n", some 4464), ("this", none), ("part", none), ("small", some 112),
            ("wide", some 65535)])) = true := by
    decide +kernel
  have reads : Binary64.toSingle 1488 = 1488 ∧ (Json.ofFloat 1488).float? = some 1488 := by
    decide +kernel
  obtain ⟨saved, among, shown⟩ := List.any_eq_true.mp shown
  simp only [Bool.and_eq_true, decide_eq_true_eq, Option.any_eq_true] at shown
  obtain ⟨⟨⟨fits, shallow⟩, floats⟩, loaded, again, vars⟩ := shown
  have loads : loadStack? (saveStack saved) = some loaded := by
    rw [(Host.after_reachable narrowing).load among fits, again]
    exact if_pos shallow
  refine ⟨saved, among, loaded, loads, vars, fun stack joined frame inside var held => ?_⟩
  have exactly : True → ∀ number ∈ saved.root.floats, Json.ReadsSingle number := by
    intro _ number listed single read same
    rw [floats, List.mem_singleton] at listed
    subst listed
    rw [reads.2] at same
    cases same
    exact single
  have fit := (stored_values_fit (furnished.loaded furnished among fits loads exactly)).1 stack
    joined frame inside var held
  exact ⟨fit.1 fun _ => trivial, fit.2⟩

def rounding : List Operation :=
  [.compile "main" "double main() \x7b float a = 9.1f; wait(1); return a; \x7d", .newStack ⟨1⟩,
    .call 0 "main" [] .unlimited]

def Variable.isUnfit (var : Variable) : Bool :=
  match var.type.kind, var.value with
  | .float, .float number => Binary64.toSingle number ≠ number
  | _, _ => false

theorem Variable.unfit_of_isUnfit {var : Variable} (unfit : var.isUnfit = true) :
    var.type.kind = .float ∧ var.value.convert? var.type ≠ some var.value := by
  unfold isUnfit at unfit
  split at unfit
  · rename_i number kind value
    refine ⟨kind, fun kept => of_decide_eq_true unfit ?_⟩
    simpa [value, Value.convert?, kind, Kind.isIntegral] using kept
  · cases unfit

open Snapshot in
/-- The call was saved, loaded and restored with success, and its local is not of its type any more. -/
theorem loaded_single_unfit : ∃ saved ∈ (Host.after rounding).executions, ∃ loaded engine stack,
    loadStack? (saveStack saved) = some loaded ∧
    (Host.after rounding).engine.restore loaded = .ok (engine, stack) ∧
    ∃ frame ∈ stack.root.tree, ∃ var ∈ frame.vars,
      var.type.kind = .float ∧ var.value.convert? var.type ≠ some var.value := by
  have shown : ((Host.after rounding).executions.any fun saved => saved.fits &&
      decide ((encodeStack saved).depth ≤ maxLevels) && saved.reread.any fun loaded =>
        ((Host.after rounding).engine.restore loaded).toOption.any fun restored =>
          restored.2.root.tree.any fun frame => frame.vars.any Variable.isUnfit) = true := by
    decide +kernel
  obtain ⟨saved, among, shown⟩ := List.any_eq_true.mp shown
  simp only [Bool.and_eq_true, decide_eq_true_eq, Option.any_eq_true] at shown
  obtain ⟨⟨fits, shallow⟩, loaded, again, ⟨engine, stack⟩, done, shown⟩ := shown
  obtain ⟨frame, inside, shown⟩ := List.any_eq_true.mp shown
  obtain ⟨var, held, unfit⟩ := List.any_eq_true.mp shown
  refine ⟨saved, among, loaded, engine, stack, ?_, ?_, frame, inside, var, held,
    Variable.unfit_of_isUnfit unfit⟩
  · rw [(Host.after_reachable rounding).load among fits, again]
    exact if_pos shallow
  · cases restored : (Host.after rounding).engine.restore loaded <;> rw [restored] at done <;>
      cases done
    rfl

end ScriptEngine
