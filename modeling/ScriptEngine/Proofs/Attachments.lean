import ScriptEngine.Proofs.Environment
import ScriptEngine.Proofs.Executing
import ScriptEngine.Proofs.Indifference
import ScriptEngine.Proofs.Objects
/-! Methods that are called without a receiver. Such a call binds the object that its program keeps, or
a new one, before it comes to its body, and its body runs on that object however often it yields. -/

namespace ScriptEngine

/-- A call of a free-form method, and the object that is `this` in its variables. -/
structure Attachment where
  program : ProgramId
  function : FunctionId
  owner : String
  this : Handle
deriving DecidableEq

/-- Where such a call is seen: it comes to its body, its body goes on, or a stack is loaded that it is
suspended on. -/
inductive Sighting where
  | started (method : Attachment)
  | continued (method : Attachment)
  | loaded (method : Attachment)
deriving DecidableEq

def Call.attachment? (call : Call) (vars : Variables) : Option Attachment :=
  match call.kind, call.owner, vars.this? with
  | .method, some owner, some this => some ⟨call.program, call.function, owner, this⟩
  | .function, _, _ | .dispatched _, _, _ | .method, none, _ | .method, some _, none => none

/-- What is seen of a call that comes to its body with these variables. -/
def Call.sightings (starts : Bool) (call : Call) (vars : Variables) : List Sighting :=
  (call.attachment? vars).toList.map (if starts then .started else .continued)

namespace Frame

def attachment? (frame : Frame) : Option Attachment :=
  frame.call?.bind fun call => call.attachment? frame.vars

mutual

def attachments : Frame → List Attachment
  | ⟨state, vars, temps, children⟩ =>
      (attachment? ⟨state, vars, temps, children⟩).toList ++ attachmentsIn children

def attachmentsIn : List (Nat × Frame) → List Attachment
  | [] => []
  | (_, child) :: rest => child.attachments ++ attachmentsIn rest

end

end Frame

namespace Invocation

/-- What is seen of the calls of free-form methods until a call ends or yields. -/
def sightings (code : Code) (context : ContextId) :
    Nat → Invocation → Frame → Machine → List Sighting
  | 0, _, _, _ => []
  | depth + 1, invocation, frame, machine =>
      let activation : Activation :=
        ⟨code, context, invocation.function.program, run code context depth⟩
      let (call, frame) := entered invocation frame
      match Metered.advance code context invocation call frame.vars frame machine with
      | .stopped _ => []
      | .ready next vars machine =>
          next.sightings (call.step = .bindParams) vars ++
            bodyNotes (.silent Sighting) activation invocation (sightings code context depth) vars
              frame machine

end Invocation

/-- What is seen of the calls of free-form methods while the call on a stack is driven. -/
def Engine.sightings (engine : Engine) (stack : Stack) (gate : Gate) : List Sighting :=
  match stack.entry with
  | none => []
  | some entry =>
      if (engine.code.programs.get? stack.program).isNone then []
      else match entryCallee engine.code stack entry with
        | .found function _ =>
            Invocation.sightings engine.code stack.context engine.code.maxCallDepth
              (entry.invocation function stack.program) stack.root ⟨engine.world, gate⟩
        | .gone | .notFound _ => []

def Host.sightings (host : Host) (operation : Operation) : List Sighting :=
  match host.rides operation with
  | some ride => host.engine.sightings ride.stack ride.gate
  | none => []

namespace Heap

variable {heap middle later : Heap} {handle : Handle} {object made : Object}

structure Retains (heap later : Heap) : Prop where
  live : ∀ handle object, heap.get? handle = some object →
    ∃ changed, later.get? handle = some changed ∧ changed.className = object.className
  reusable : heap.Reusable → later.Reusable

namespace Retains

theorem refl (heap : Heap) : heap.Retains heap := ⟨fun _ object live => ⟨object, live, rfl⟩, id⟩

theorem trans (first : heap.Retains middle) (second : middle.Retains later) : heap.Retains later where
  live := fun handle object live => by
    obtain ⟨between, live, same⟩ := first.live handle object live
    obtain ⟨changed, live, also⟩ := second.live handle between live
    exact ⟨changed, live, also.trans same⟩
  reusable := second.reusable ∘ first.reusable

theorem update {change : Object → Object}
    (keeps : ∀ object, (change object).className = object.className) :
    heap.Retains (heap.update handle change) where
  live := fun other object live => by
    rw [get?_update, live]
    split
    · exact ⟨change object, rfl, keeps object⟩
    · exact ⟨object, rfl, rfl⟩
  reusable := update_reusable

end Retains

theorem get?_allocate_eq (reusable : heap.Reusable) (live : heap.get? handle = some object) :
    (heap.allocate made).2.get? handle = some object := by
  rw [get?_eq_some_iff] at live ⊢
  rcases allocate_cases reusable made with ⟨index, slot, _, held, empty, _, same⟩ | ⟨_, same⟩
  · have apart : index ≠ handle.index := by
      rintro rfl
      rw [live] at held
      cases held
      cases empty
    rw [same, List.getElem?_set_ne apart]
    exact live
  · rw [same, List.getElem?_append_left (List.getElem?_eq_some_iff.mp live).1]
    exact live

theorem get?_allocate_none (reusable : heap.Reusable) (made : Object) :
    heap.get? (heap.allocate made).1 = none := by
  rcases allocate_cases reusable made with ⟨index, slot, _, held, empty, _, same⟩ | ⟨_, same⟩
  · rw [same]
    simp only [get?, held, if_true, empty]
  · rw [same]
    simp [get?]

theorem Retains.allocate (reusable : heap.Reusable) (made : Object) :
    heap.Retains (heap.allocate made).2 where
  live := fun _ object live => ⟨object, get?_allocate_eq reusable live, rfl⟩
  reusable := fun reusable => allocate_reusable reusable made

end Heap

structure World.Retains (world after : World) : Prop where
  instances : after.instances = world.instances
  heap : world.heap.Retains after.heap

theorem World.Retains.refl (world : World) : world.Retains world := ⟨rfl, .refl _⟩

/-- How the world changes along what is seen: a call that comes to its body has bound the object of its
program or a new one, and one that goes on is one of those that were suspended. -/
inductive Attaches (code : Code) (held : List Attachment) : World → List Sighting → World → Prop
  | kept {world after : World} : world.Retains after → Attaches code held world [] after
  | started {function : Function} {owner : String} {this : Handle} {world after : World} :
      code.Owns function → function.owner = some owner →
      Invocation.programInstance code function.program owner world = .ok (this, after) →
      Attaches code held world [.started ⟨function.program, function.id, owner, this⟩] after
  | continued {method : Attachment} {world : World} : method ∈ held →
      Attaches code held world [.continued method] world
  | trans {world middle after : World} {seen more : List Sighting} :
      Attaches code held world seen middle → Attaches code held middle more after →
      Attaches code held world (seen ++ more) after

namespace Attaches

variable {code : Code} {held : List Attachment} {world middle after : World} {seen : List Sighting}

theorem refl (world : World) : Attaches code held world [] world := .kept (.refl world)

theorem head (attaches : Attaches code held middle seen after) (retains : world.Retains middle) :
    Attaches code held world seen after := (kept retains).trans attaches

theorem tail (attaches : Attaches code held world seen middle) (retains : middle.Retains after) :
    Attaches code held world seen after := by
  rw [← List.append_nil seen]
  exact attaches.trans (.kept retains)

theorem held_of_continued (attaches : Attaches code held world seen after) {method : Attachment}
    (among : .continued method ∈ seen) : method ∈ held := by
  induction attaches with
  | kept => cases among
  | started => cases List.mem_singleton.mp among
  | continued known =>
      cases List.mem_singleton.mp among
      exact known
  | trans _ _ before behind => exact (List.mem_append.mp among).elim before behind

end Attaches

namespace Frame

variable {held : List Attachment} {seen more : List Sighting} {frame inner : Frame}

theorem mem_attachmentsIn {method : Attachment} {children : List (Nat × Frame)} :
    method ∈ attachmentsIn children ↔ ∃ entry ∈ children, method ∈ entry.2.attachments := by
  induction children with
  | nil => simp [attachmentsIn]
  | cons entry rest ih => simp [attachmentsIn, ih]

theorem mem_attachments {method : Attachment} : method ∈ frame.attachments ↔
    frame.attachment? = some method ∨ ∃ entry ∈ frame.children, method ∈ entry.2.attachments := by
  obtain ⟨state, vars, temps, children⟩ := frame
  rw [attachments, List.mem_append, Option.mem_toList, mem_attachmentsIn]

/-- The calls in a frame tree are past binding, and the free-form methods among them are held. -/
structure Carries (held : List Attachment) (frame : Frame) : Prop where
  settled : frame.Settled
  held : ∀ method ∈ frame.attachments, method ∈ held

def Traces (held : List Attachment) (seen : List Sighting) (frame : Frame) : Prop :=
  ∀ method ∈ frame.attachments, method ∈ held ∨ .started method ∈ seen

theorem traces_iff : frame.Traces held seen ↔
    (∀ method, frame.attachment? = some method → method ∈ held ∨ .started method ∈ seen) ∧
      ∀ entry ∈ frame.children, entry.2.Traces held seen := by
  constructor
  · intro traces
    exact ⟨fun method own => traces method (mem_attachments.mpr (Or.inl own)),
      fun entry among method below =>
        traces method (mem_attachments.mpr (Or.inr ⟨entry, among, below⟩))⟩
  · rintro ⟨own, children⟩ method among
    rcases mem_attachments.mp among with here | ⟨entry, child, below⟩
    · exact own method here
    · exact children entry child method below

namespace Carries

theorem fresh : Carries held {} :=
  ⟨settled_fresh, by simp [attachments, attachment?, call?, attachmentsIn]⟩

theorem inside (carries : frame.Carries held) : ∀ entry ∈ frame.children, entry.2.Carries held :=
  fun entry among => ⟨(settled_iff.mp carries.settled).2 entry among,
    fun method below => carries.held method (mem_attachments.mpr (Or.inr ⟨entry, among, below⟩))⟩

theorem of_children (plain : frame.call? = none)
    (children : ∀ entry ∈ frame.children, entry.2.Carries held) : frame.Carries held where
  settled := by
    refine settled_iff.mpr ⟨?_, fun entry among => (children entry among).settled⟩
    unfold call? at plain
    split at plain
    · cases plain
    · rename_i other
      cases held : frame.state with
      | call call => exact absurd held (other call)
      | fresh | block | wait | eval => trivial
  held := by
    intro method among
    rcases mem_attachments.mp among with own | ⟨entry, child, below⟩
    · simp [attachment?, plain] at own
    · exact (children entry child).held method below

theorem child_of_inside (inside : ∀ entry ∈ frame.children, entry.2.Carries held) (slot : Nat) :
    (frame.child slot).Carries held := by
  unfold Frame.child child?
  cases found : frame.children.lookup slot with
  | none => exact fresh
  | some inner =>
      obtain ⟨before, behind, split, _⟩ := List.lookup_eq_some_iff.mp found
      exact inside (slot, inner) (by simp [split])

theorem child (carries : frame.Carries held) (slot : Nat) : (frame.child slot).Carries held :=
  child_of_inside carries.inside slot

theorem withoutChild (carries : frame.Carries held) (slot : Nat) (temps : List Value) :
    Carries held { frame.withoutChild slot with temps } where
  settled := carries.settled.rest (settled_iff.mp carries.settled).1
    fun _ among => (List.mem_filter.mp among).1
  held := by
    intro method among
    rcases mem_attachments.mp among with own | ⟨entry, child, below⟩
    · exact carries.held method (mem_attachments.mpr (Or.inl own))
    · exact (carries.inside entry (List.mem_filter.mp child).1).held method below

theorem block (carries : frame.Carries held) (next : Nat) :
    Carries held { frame with state := .block next } :=
  .of_children rfl carries.inside

theorem passed (carries : frame.Carries held) (place : Nat) :
    Carries held { frame.withoutChild place with state := .block (place + 1) } :=
  .of_children rfl fun entry among => carries.inside entry (List.mem_filter.mp among).1

theorem waiting (carries : frame.Carries held) (remaining : Nat) :
    Carries held { frame with state := .wait remaining } :=
  .of_children rfl carries.inside

theorem startEval (carries : frame.Carries held) : frame.startEval.Carries held := by
  unfold Frame.startEval
  split
  · exact carries
  · exact .of_children rfl nofun

theorem clearProgress (carries : frame.Carries held) : frame.clearProgress.Carries held where
  settled := carries.settled.rest (settled_iff.mp carries.settled).1 nofun
  held := by
    intro method among
    rcases mem_attachments.mp among with own | ⟨_, absurdity, _⟩
    · exact carries.held method (mem_attachments.mpr (Or.inl own))
    · cases absurdity

theorem traces (carries : frame.Carries held) : frame.Traces held seen :=
  fun method among => Or.inl (carries.held method among)

end Carries

namespace Traces

theorem of_call {call : Call} (called : frame.call? = some call)
    (own : ∀ method, call.attachment? frame.vars = some method →
      method ∈ held ∨ .started method ∈ seen)
    (inside : ∀ entry ∈ frame.children, entry.2.Traces held seen) : frame.Traces held seen :=
  traces_iff.mpr ⟨fun method attached => own method (by simpa [attachment?, called] using attached),
    inside⟩

theorem mono (traces : frame.Traces held seen) (among : seen ⊆ more) : frame.Traces held more :=
  fun method attached => (traces method attached).imp_right fun started => among started

theorem withChild (traces : frame.Traces held seen) (slot : Nat)
    (also : inner.Traces held seen) : (frame.withChild slot inner).Traces held seen := by
  obtain ⟨own, children⟩ := traces_iff.mp traces
  refine traces_iff.mpr ⟨own, fun entry among => ?_⟩
  rcases mem_place among with rfl | kept
  · exact also
  · exact children entry kept

end Traces

end Frame

section

variable {context : ContextId}

theorem keepCallee_retains (world : World) (site : SiteId) (id? : Option FunctionId) :
    world.Retains (world.keepCallee site id?) := by
  cases id? <;> exact ⟨rfl, .refl _⟩

theorem releaseGuard_retains (call : Call) (machine : Machine) :
    machine.world.Retains (Invocation.releaseGuard context call machine).world := by
  unfold Invocation.releaseGuard
  split <;> exact ⟨rfl, .refl _⟩

theorem writeVariable_retains {world : World} {vars : Variables} {target : Target} {value : Value}
    {span : Span} {heap : Heap} {written : Variables}
    (wrote : Evaluation.writeVariable world.heap vars target value span = .ok (heap, written)) :
    world.Retains { world with heap } := by
  rcases writeVariable_cases wrote with ⟨_, _, _, _, _, rfl, _⟩ |
    ⟨handle, object, name, field, stored, _, _, _, rfl, _⟩
  · exact .refl _
  · exact ⟨rfl, .update fun _ => rfl⟩

end

section

variable {activation : Activation}

theorem evalThen_this (expr : Expr) (frame : Frame) (state : RunState)
    {continueWith : Value → RunState → Progress Completion × RunState}
    (continued : ∀ (value : Value) (state : RunState),
      (continueWith value state).2.vars.this? = state.vars.this?) :
    (Evaluation.evalThen activation expr frame state continueWith).2.vars.this? =
      state.vars.this? := by
  unfold Evaluation.evalThen
  split
  · exact continued ..
  · rfl
  · rfl

theorem declare_this (id : VarId) (var : Variable) (state : RunState) :
    (Evaluation.declare id var state).2.vars.this? = state.vars.this? := by
  have other : List.find? (fun var => decide (var.binding = Binding.reserved .this))
      [var.bind (.var id)] = none := by
    simp [Variable.bind]
  simp [Evaluation.declare, Variables.this?, Variables.find?, List.find?_append, other]

theorem assign_this (target : Target) (span : Span) (value : Value) (state : RunState) :
    (Evaluation.assign target span value state).2.vars.this? = state.vars.this? := by
  unfold Evaluation.assign
  split
  · rename_i wrote
    rcases writeVariable_cases wrote with ⟨id, _, stored, _, _, _, rfl⟩ |
      ⟨_, _, _, _, _, _, _, _, _, rfl⟩
    · simp only [Variables.this?, Variables.find?_update_local]
    · rfl
  · rfl

theorem waitStep_this (frame : Frame) (state : RunState) (remaining : Nat) :
    (Evaluation.waitStep frame state remaining).2.vars.this? = state.vars.this? := by
  cases remaining <;> rfl

mutual

theorem execStmt_this : ∀ (stmt : Stmt) (frame : Frame) (state : RunState),
    (Evaluation.execStmt activation stmt frame state).2.vars.this? = state.vars.this?
  | .block _ stmts, frame, state => by
      rw [Evaluation.execStmt]
      exact execStmts_this 0 stmts _ state
  | .return _ none, _, _ => by
      rw [Evaluation.execStmt]
  | .declare _ _ _ _ none, _, state => by
      rw [Evaluation.execStmt]
      exact declare_this ..
  | .return _ (some expr), frame, state | .expr expr, frame, state => by
      rw [Evaluation.execStmt]
      exact evalThen_this expr frame state fun _ _ => rfl
  | .wait _ count, frame, state => by
      rw [Evaluation.execStmt]
      split
      · exact waitStep_this ..
      · exact evalThen_this count frame state fun _ _ => waitStep_this ..
  | .declare span id name type (some expr), frame, state => by
      rw [Evaluation.execStmt]
      refine evalThen_this expr frame state fun value state => ?_
      split
      · exact declare_this ..
      · rfl
  | .assign span target expr, frame, state => by
      rw [Evaluation.execStmt]
      exact evalThen_this expr frame state fun _ _ => assign_this ..

theorem execStmts_this (place : Nat) : ∀ (stmts : List Stmt) (frame : Frame) (state : RunState),
    (Evaluation.execStmts activation place stmts frame state).2.vars.this? = state.vars.this?
  | [], _, _ => by
      rw [Evaluation.execStmts]
  | first :: rest, frame, state => by
      rw [Evaluation.execStmts]
      split
      · exact execStmts_this (place + 1) rest frame state
      · have here := execStmt_this first (frame.child place) state
        generalize Evaluation.execStmt _ _ _ _ = ended at here ⊢
        obtain ⟨progress, after⟩ := ended
        cases progress with
        | suspended child => exact here
        | failed error => exact here
        | done completion =>
            cases completion with
            | next => exact (execStmts_this (place + 1) rest _ after).trans here
            | «return» value => exact here

end

end

def Invocation.Addressed (invocation : Invocation) (frame : Frame) : Prop :=
  frame.call? = none →
    (invocation.receiver = none ↔ invocation.function.signature.classBlock = none)

section

variable {code : Code} {context : ContextId} {held : List Attachment} {invocation : Invocation}
  {call : Call} {vars bound : Variables} {world after : World}

theorem ParamList.bindFrom_find? (name : Reserved) (args : Variables) {params : List Param} :
    ∀ (place : Nat) (vars : Variables),
      (bindFrom args place vars params).1.find? (.reserved name) = vars.find? (.reserved name) := by
  induction params with
  | nil => exact fun _ _ => rfl
  | cons param rest ih =>
      intro place vars
      rw [bindFrom]
      cases made : bindParam args place param with
      | error error => rfl
      | ok var =>
          unfold bindParam at made
          split at made
          · cases made
            dsimp only
            rw [ih, Variables.find?, Variables.find?, List.find?_append]
            simp [Variable.bind]
          · cases made

theorem bindInstance_of_method (addressed : invocation.receiver = none ↔
      invocation.function.signature.classBlock = none)
    (kind : invocation.function.signature.callKind = .method)
    (free : vars.find? (.reserved .this) = none)
    (done : Invocation.bindInstance code invocation vars world = .ok (bound, after)) :
    ∃ owner this, invocation.function.owner = some owner ∧ bound.this? = some this ∧
      Invocation.programInstance code invocation.function.program owner world =
        .ok (this, after) := by
  obtain ⟨⟨owner, owned⟩, apart⟩ := Signature.owner_of_method kind
  have given := addressed.mpr apart
  have owned : invocation.function.owner = some owner := owned
  simp only [Invocation.bindInstance, owned, given, bind, Except.bind] at done
  cases chosen : Invocation.programInstance code invocation.function.program owner world with
  | error error => simp [chosen] at done
  | ok found =>
      simp only [chosen, pure, Except.pure, Except.ok.injEq, Prod.mk.injEq] at done
      obtain ⟨rfl, rfl⟩ := done
      refine ⟨owner, found.1, owned, ?_, chosen⟩
      rw [Variables.find?, if_neg Binding.noConfusion] at free
      rw [Variables.this?, Variables.find?, if_neg Binding.noConfusion, List.find?_append, free]
      rfl

theorem bindInstance_of_other (addressed : invocation.receiver = none ↔
      invocation.function.signature.classBlock = none)
    (kind : invocation.function.signature.callKind ≠ .method)
    (done : Invocation.bindInstance code invocation vars world = .ok (bound, after)) :
    after = world := by
  unfold Invocation.bindInstance at done
  cases owned : invocation.function.owner with
  | none =>
      simp only [owned, Except.ok.injEq, Prod.mk.injEq] at done
      exact done.2.symm
  | some owner =>
      cases given : invocation.receiver with
      | some handle =>
          simp only [owned, given, bind, Except.bind, pure, Except.pure, Except.ok.injEq,
            Prod.mk.injEq] at done
          exact done.2.symm
      | none =>
          refine absurd ?_ kind
          have owned : invocation.function.signature.header.owner = some owner := owned
          simp [Signature.callKind, owned, addressed.mp given]

@[simp] theorem Call.attachment?_advance (call : Call) (vars : Variables) :
    call.advance.attachment? vars = call.attachment? vars := rfl

theorem Call.attachment?_of_other (kind : call.kind ≠ .method) (vars : Variables) :
    call.attachment? vars = none := by
  unfold attachment?
  split
  · rename_i same _ _
    exact absurd same kind
  · rfl
  · rfl
  · rfl
  · rfl

theorem Call.attachment?_unnamed (unnamed : vars.this? = none) : call.attachment? vars = none := by
  unfold attachment?
  rw [unnamed]
  cases call.kind with
  | method => cases call.owner <;> rfl
  | function | dispatched => rfl

theorem Call.attachment?_this {other : Variables} (same : other.this? = vars.this?) :
    call.attachment? other = call.attachment? vars := by
  unfold attachment?
  rw [same]

theorem Call.mem_sightings {starts : Bool} {seen : Sighting} : seen ∈ call.sightings starts vars ↔
    ∃ method, call.attachment? vars = some method ∧
      seen = if starts then .started method else .continued method := by
  unfold sightings
  cases call.attachment? vars with
  | none => simp
  | some method => cases starts <;> simp

def Approaches (code : Code) (held : List Attachment) (world : World) (starts : Bool) (call : Call)
    (vars : Variables) (after : World) : Prop :=
  match call.step with
  | .bindParams | .bindInstance =>
      starts = true ∧ vars.find? (.reserved .this) = none ∧ world.Retains after
  | .acquireGuard => world.Retains after ∧
      ∀ method, call.attachment? vars = some method → starts = false ∧ method ∈ held
  | .runBody => Attaches code held world (call.sightings starts vars) after

structure Halts (code : Code) (held : List Attachment) (world : World) (frame : Frame)
    (ended : Progress Value × Machine) : Prop where
  attaches : Attaches code held world [] ended.2.world
  left : ∀ left, ended.1 = .suspended left → left.children = frame.children ∧
    ∀ method, left.attachment? = some method → method ∈ held

/-- A call as its function starts it, up to the step that it is at. -/
structure Invocation.Starts (invocation : Invocation) (call : Call) : Prop where
  call : call = { invocation.function.newCall with step := call.step }
  addressed : invocation.receiver = none ↔ invocation.function.signature.classBlock = none

variable {starts : Bool} {frame : Frame} {machine : Machine}

theorem bindInstance_approaches (owns : code.Owns invocation.function)
    (started : invocation.Starts call) (binds : call.step = .bindInstance)
    (free : vars.find? (.reserved .this) = none) (retains : world.Retains machine.world)
    (done : Invocation.bindInstance code invocation vars machine.world = .ok (bound, after)) :
    Approaches code held world true call.advance bound after := by
  have kind : call.kind = invocation.function.signature.callKind := by
    rw [started.call]
    rfl
  by_cases method : invocation.function.signature.callKind = .method
  · obtain ⟨owner, this, owned, given, made⟩ :=
      bindInstance_of_method started.addressed method free done
    have runs : call.advance.step = .runBody := by
      simp [Call.advance, CallStep.next, binds, kind, method, CallKind.isSynchronized]
    have attached : call.advance.attachment? bound = some
        ⟨invocation.function.program, invocation.function.id, owner, this⟩ := by
      rw [Call.attachment?_advance, started.call]
      simp only [Call.attachment?, Function.newCall, method, owned, given]
    rw [Approaches, runs]
    dsimp only
    rw [Call.sightings, attached]
    exact (Attaches.kept retains).trans (.started owns owned made)
  · obtain rfl := bindInstance_of_other started.addressed method done
    have nothing : call.advance.attachment? bound = none :=
      Call.attachment?_of_other (fun same => method (kind.symm.trans same)) bound
    unfold Approaches
    split
    · rename_i next
      simp only [Call.advance, CallStep.next, binds] at next
      split at next <;> cases next
    · rename_i next
      simp only [Call.advance, CallStep.next, binds] at next
      split at next <;> cases next
    · refine ⟨retains, fun method attached => ?_⟩
      rw [nothing] at attached
      cases attached
    · rw [Call.sightings, nothing]
      exact .kept retains

theorem Metered.step_approaches (owns : code.Owns invocation.function)
    (started : starts = true → invocation.Starts call) (due : call.step ≠ .runBody)
    (approaches : Approaches code held world starts call vars machine.world) :
    match step code context invocation call vars frame machine with
    | .error ended => Halts code held world frame ended
    | .ok (next, after) => Approaches code held world starts call.advance next after.world := by
  unfold Approaches at approaches
  unfold step
  cases stands : call.step with
  | runBody => exact absurd stands due
  | bindParams =>
      rw [stands] at approaches
      obtain ⟨rfl, free, retains⟩ := approaches
      -- Parameters are locals, so no object is bound with them.
      have kept := @ParamList.bindFrom_find? .this invocation.args
        invocation.function.params.params 0 vars
      dsimp only
      rw [ParamList.bind]
      generalize ParamList.bindFrom _ _ _ _ = made at kept ⊢
      obtain ⟨given, _ | error⟩ := made
      · unfold Approaches
        cases binds : call.kind.bindsInstance with
        | true =>
            have next : call.advance.step = .bindInstance := by
              simp [Call.advance, CallStep.next, stands, binds]
            rw [next]
            exact ⟨rfl, kept.trans free, retains⟩
        | false =>
            have next : call.advance.step = .runBody := by
              simp [Call.advance, CallStep.next, stands, binds]
            have other : call.advance.kind ≠ .method := by
              intro same
              rw [show call.kind = .method from same] at binds
              cases binds
            rw [next]
            dsimp only
            rw [Call.sightings, Call.attachment?_of_other other]
            exact .kept retains
      · refine ⟨.kept retains, fun left suspended => ?_⟩
        cases suspended
  | bindInstance =>
      rw [stands] at approaches
      obtain ⟨rfl, free, retains⟩ := approaches
      dsimp only
      cases done : Invocation.bindInstance code invocation vars machine.world with
      | error error =>
          refine ⟨.kept retains, fun left suspended => ?_⟩
          cases suspended
      | ok bound =>
          exact bindInstance_approaches owns (started rfl) stands free retains done
  | acquireGuard =>
      rw [stands] at approaches
      obtain ⟨retains, mine⟩ := approaches
      dsimp only
      generalize machine.world.guards.tryLock _ _ = answer
      obtain ⟨taken, guards⟩ := answer
      have locked : world.Retains { machine.world with guards } := ⟨retains.instances, retains.heap⟩
      cases taken with
      | false =>
          refine ⟨.kept locked, fun left same => ?_⟩
          cases same
          exact ⟨rfl, fun method attached => (mine method attached).2⟩
      | true =>
          have next : call.advance.step = .runBody := by
            simp [Call.advance, CallStep.next, stands]
          simp only [if_true]
          unfold Approaches
          rw [next]
          dsimp only
          rw [Call.sightings, Call.attachment?_advance]
          -- A call that starts and takes a guard is no free-form one; with an object it was held
          -- before.
          cases attached : call.attachment? vars with
          | none => exact .kept locked
          | some method =>
              obtain ⟨rfl, known⟩ := mine method attached
              exact (Attaches.kept locked).trans (.continued known)

theorem Metered.advance_approaches (owns : code.Owns invocation.function)
    (started : starts = true → invocation.Starts call)
    (approaches : Approaches code held world starts call vars machine.world) :
    match advance code context invocation call vars frame machine with
    | .stopped ended => Halts code held world frame ended
    | .ready next bound ready =>
        Attaches code held world (next.sightings starts bound) ready.world := by
  fun_induction advance code context invocation call vars frame machine with
  | case1 call vars machine runs =>
      rw [Approaches, runs] at approaches
      exact approaches
  | case2 call vars machine due ended stopped =>
      have taken := @step_approaches code context _ _ _ _ _ _ frame _ owns started due approaches
      rw [stopped] at taken
      exact taken
  | case3 call vars machine due _ _ taken ih =>
      have here := @step_approaches code context _ _ _ _ _ _ frame _ owns started due approaches
      rw [taken] at here
      refine ih (fun starting => ?_) here
      obtain ⟨same, addressed⟩ := started starting
      exact ⟨by rw [Call.advance, same], addressed⟩

end

end ScriptEngine
