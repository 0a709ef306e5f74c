import ScriptEngine.Proofs.Agreement
import ScriptEngine.Proofs.Following
import ScriptEngine.Proofs.Hosting
/-! Suspension is transparent: however often a call yields, and whatever its gates answer, it ends
as it would have in one go. -/

namespace ScriptEngine

open Direct (Course Ending)

/-- A call that a host makes: of a free function, or of a method of an object. -/
inductive Request where
  | function (name : String) (args : Variables)
  | method (handle : Handle) (name : String) (args : Variables)

namespace Request

def start (engine : Engine) (stack : Stack) (gate : Gate) : Request → Driven
  | .function name args => engine.call stack name args gate
  | .method handle name args => engine.callMethod stack handle name args gate

/-- The call that is put on a stack; there is none on an object that is gone. -/
def opened? (heap : Heap) : Request → Option EntryCall
  | .function name args => some { name, args }
  | .method handle name args => (heap.get? handle).map fun object =>
      { name, args, receiver := some ⟨handle, object.className⟩ }

theorem start_eq {engine : Engine} {stack : Stack} {request : Request} {gate : Gate} :
    request.start engine stack gate = match request.opened? engine.world.heap with
      | some entry => engine.start stack entry gate
      | none => ⟨.error .staleObject, engine, stack, gate⟩ := by
  cases request with
  | function name args => rfl
  | method handle name args =>
      simp only [start, opened?, Engine.callMethod]
      cases engine.world.heap.get? handle <;> rfl

end Request

/-- Resume under one gate after the other. -/
def Driven.resumed (driven : Driven) (gates : List Gate) : Driven :=
  gates.foldl (fun driven gate => driven.engine.resume driven.stack gate) driven

theorem Driven.resumed_idle {driven : Driven} (idle : driven.stack.entry = none) (gate : Gate)
    (gates : List Gate) : (driven.resumed (gate :: gates)).outcome = .error .noActiveCall := by
  have refused : ∀ (driven : Driven), driven.stack.entry = none → ∀ gate : Gate,
      driven.engine.resume driven.stack gate =
        ⟨.error .noActiveCall, driven.engine, driven.stack, gate⟩ := by
    intro driven idle gate
    simp only [Engine.resume, Engine.drive, idle]
  induction gates generalizing driven gate with
  | nil => simp only [resumed, List.foldl_cons, List.foldl_nil, refused driven idle]
  | cons next rest ih =>
      change ((driven.engine.resume driven.stack gate).resumed (next :: rest)).outcome = _
      rw [refused driven idle]
      exact ih idle next

structure Pending (engine : Engine) (stack : Stack) (entry : EntryCall)
    (invocation : Invocation) : Prop where
  loaded : (engine.code.programs.get? stack.program).isSome
  started : stack.entry = some entry
  found : ∃ kept, Engine.entryCallee engine.code stack entry = .found invocation.function kept
  called : invocation = entry.invocation invocation.function stack.program

namespace Pending

variable {engine : Engine} {stack : Stack} {entry : EntryCall} {invocation : Invocation}

theorem drive_eq (pending : Pending engine stack entry invocation) (gate : Gate) :
    ∃ kept, engine.drive stack gate = engine.ran stack entry kept
      (Invocation.run engine.code stack.context engine.code.maxCallDepth invocation stack.root
        ⟨engine.world, gate⟩) := by
  obtain ⟨kept, found⟩ := pending.found
  have driven := Engine.drive_entered pending.started pending.loaded found gate
  rw [← pending.called] at driven
  exact ⟨kept, driven⟩

theorem suspended (pending : Pending engine stack entry invocation)
    (consistent : engine.code.Consistent) {root : Frame} {machine after : Machine}
    {depth : Nat} {kept : Option FunctionId}
    (stopped : Invocation.run engine.code stack.context depth invocation stack.root machine =
      (.suspended root, after)) :
    Pending { engine with world := after.world }
      { stack with entry := some { entry with kept }, root } { entry with kept } invocation := by
  obtain ⟨kept?, found⟩ := pending.found
  obtain ⟨resolved, chosen, owned⟩ := Engine.entryCallee_eq engine.code stack entry
  rw [chosen] at found
  have loaded := Following.callee_found found (owned consistent _) invocation.receiver invocation.args
    invocation.site invocation.caller
  obtain ⟨step, held⟩ := Following.run_named stopped
  refine ⟨pending.loaded, rfl, ⟨kept, ?_⟩, pending.called⟩
  exact Following.callee_of_loaded _ _ ⟨_, held, loaded⟩

theorem resumed_eq (pending : Pending engine stack entry invocation)
    (consistent : engine.code.Consistent) {outcome : Outcome} (finished : outcome ≠ .suspended)
    (gate : Gate) (gates : List Gate) (yields : Nat)
    (ends : ((engine.resume stack gate).resumed gates).outcome = .ok outcome) :
    let ending := Remainder.run engine.code stack.context engine.code.maxCallDepth invocation
      stack.root ⟨engine.world, yields⟩
    outcome = Direct.outcome ending.result ∧
      ((engine.resume stack gate).resumed gates).engine.world = ending.course.world := by
  induction gates generalizing engine stack entry gate yields with
  | nil =>
      obtain ⟨kept, driven⟩ := pending.drive_eq gate
      have follows := Following.run_follows consistent stack.context engine.code.maxCallDepth
        invocation stack.root ⟨engine.world, gate⟩
      simp only [Driven.resumed, List.foldl_nil, Engine.resume, driven] at ends ⊢
      generalize Invocation.run _ _ _ _ _ _ = result at follows ends ⊢
      obtain ⟨progress, machine⟩ := result
      cases progress with
      | done value =>
          rw [follows yields]
          exact ⟨(Except.ok.inj ends).symm, rfl⟩
      | failed error =>
          rw [follows yields]
          exact ⟨(Except.ok.inj ends).symm, rfl⟩
      | suspended root => exact absurd (Except.ok.inj ends).symm finished
  | cons next rest ih =>
      obtain ⟨kept, driven⟩ := pending.drive_eq gate
      have follows := Following.run_follows consistent stack.context engine.code.maxCallDepth
        invocation stack.root ⟨engine.world, gate⟩
      have suspended : ∀ root after, Invocation.run engine.code stack.context
          engine.code.maxCallDepth invocation stack.root ⟨engine.world, gate⟩ =
            (.suspended root, after) → Pending { engine with world := after.world }
              { stack with entry := some { entry with kept }, root } { entry with kept }
              invocation := fun _ _ stopped => pending.suspended consistent stopped
      simp only [Engine.resume, driven] at ends ⊢
      generalize Invocation.run _ _ _ _ _ _ = result at follows ends suspended ⊢
      obtain ⟨progress, machine⟩ := result
      cases progress with
      | done value =>
          rw [Driven.resumed_idle rfl] at ends
          cases ends
      | failed error =>
          rw [Driven.resumed_idle rfl] at ends
          cases ends
      | suspended root =>
          obtain ⟨count, _, continues⟩ := follows
          have later := ih (suspended root machine rfl) consistent next (yields + count) ends
          rw [continues yields]
          exact later

end Pending

theorem Driven.resumed_unloaded {driven : Driven} {entry : EntryCall}
    (started : driven.stack.entry = some entry)
    (missing : driven.engine.code.programs.get? driven.stack.program = none) {error : EngineError}
    (failed : driven.outcome = .error error) (gates : List Gate) :
    ∃ error, (driven.resumed gates).outcome = .error error := by
  induction gates generalizing driven error with
  | nil => exact ⟨error, failed⟩
  | cons gate rest ih =>
      have refused : driven.engine.resume driven.stack gate =
          ⟨.error (.unknownProgram driven.stack.program), driven.engine, driven.stack, gate⟩ := by
        simp only [Engine.resume, Engine.drive, started, missing, Option.isNone_none, if_true]
      change ∃ error, ((driven.engine.resume driven.stack gate).resumed rest).outcome = .error error
      rw [refused]
      exact ih started missing rfl

theorem start_resumed {engine : Engine} {stack : Stack} {entry : EntryCall}
    (consistent : engine.code.Consistent) (idle : stack.isActive = false)
    (first : entry.kept = none) {outcome : Outcome} (finished : outcome ≠ .suspended)
    (gate : Gate) (gates : List Gate)
    (ends : ((engine.start stack entry gate).resumed gates).outcome = .ok outcome) :
    (Direct.hostCall engine stack entry).1 = outcome ∧
      (Direct.hostCall engine stack entry).2.world =
        ((engine.start stack entry gate).resumed gates).engine.world := by
  let opened : Stack := { stack with entry := some entry, root := {}, lastError := none }
  have starts : engine.start stack entry gate = engine.drive opened gate := by
    simp only [Engine.start, idle, Bool.false_eq_true, if_false]
    rfl
  rw [starts] at ends ⊢
  cases loaded : engine.code.programs.get? stack.program with
  | none =>
      have refused : engine.drive opened gate =
          ⟨.error (.unknownProgram stack.program), engine, opened, gate⟩ := by
        simp only [Engine.drive, opened, loaded, Option.isNone_none, if_true]
      rw [refused] at ends
      obtain ⟨error, failed⟩ := @Driven.resumed_unloaded
        ⟨.error (.unknownProgram stack.program), engine, opened, gate⟩ entry rfl loaded _ rfl gates
      rw [failed] at ends
      cases ends
  | some program =>
      have chosen : Engine.entryCallee engine.code opened entry = Evaluation.callee engine.code {}
          none (Direct.entryFunction engine.code stack entry) := by
        rw [Engine.entryCallee, first]
        rfl
      unfold Direct.hostCall
      generalize Direct.entryFunction engine.code stack entry = found at chosen ⊢
      obtain ⟨result, kept⟩ := found
      cases result with
      | error cause =>
          -- Nothing is found to call, and the stack is idle again, so there is nothing to resume.
          have ended : engine.drive opened gate =
              ⟨.ok (.notFound cause), engine, opened.finish, gate⟩ := by
            simp only [Engine.drive, opened, loaded, Option.isNone_some, Bool.false_eq_true,
              if_false]
            rw [chosen]
            rfl
          cases gates with
          | nil =>
              rw [ended] at ends ⊢
              exact ⟨Except.ok.inj ends, rfl⟩
          | cons next rest =>
              rw [ended, Driven.resumed_idle rfl] at ends
              cases ends
      | ok function =>
          let invocation : Invocation :=
            ⟨function, entry.receiver.map Receiver.handle, entry.args, none, stack.program⟩
          have pending : Pending engine opened entry invocation :=
            ⟨by simp only [opened, loaded, Option.isSome_some], rfl, ⟨kept, chosen⟩, rfl⟩
          obtain ⟨same, world⟩ := pending.resumed_eq consistent finished gate gates 0 ends
          rw [Agreement.run_fresh] at same world
          exact ⟨same.symm, world.symm⟩

/-- A call that the host makes on an idle stack, and resumes under whatever gates until it is over,
has the outcome and leaves the world of its evaluation in one go. -/
theorem suspension_transparent (operations : List Operation) (stack : Stack)
    (idle : stack.isActive = false) (request : Request) (gate : Gate) (gates : List Gate)
    (outcome : Outcome) (finished : outcome ≠ .suspended)
    (ends : ((request.start (Host.after operations).engine stack gate).resumed gates).outcome =
      .ok outcome) :
    ∃ entry, request.opened? (Host.after operations).engine.world.heap = some entry ∧
      (Direct.hostCall (Host.after operations).engine stack entry).1 = outcome ∧
      (Direct.hostCall (Host.after operations).engine stack entry).2.world =
        ((request.start (Host.after operations).engine stack gate).resumed gates).engine.world := by
  obtain ⟨known, knows⟩ := Host.after_knows operations
  generalize (Host.after operations).engine = engine at knows ends ⊢
  rw [Request.start_eq] at ends ⊢
  cases entered : request.opened? engine.world.heap with
  | none =>
      rw [entered] at ends
      have noEntry : stack.entry = none := by simpa [Stack.isActive] using idle
      cases gates with
      | nil => cases ends
      | cons next rest =>
          rw [Driven.resumed_idle noEntry] at ends
          cases ends
  | some entry =>
      rw [entered] at ends
      have first : entry.kept = none := by
        cases request with
        | function name args =>
            cases entered
            rfl
        | method handle name args =>
            obtain ⟨object, _, rfl⟩ := Option.map_eq_some_iff.mp entered
            rfl
      exact ⟨entry, rfl, start_resumed knows.consistent idle first finished gate gates ends⟩

def Driven.int? (driven : Driven) : Option Int64 :=
  match driven.outcome with
  | .ok (.completed (.int number)) => some number
  | _ => none

theorem Driven.outcome_of_int? {driven : Driven} {number : Int64}
    (handed : driven.int? = some number) : driven.outcome = .ok (.completed (.int number)) := by
  unfold int? at handed
  split at handed
  · rename_i completed
    cases handed
    exact completed
  · cases handed

def waitingProgram : List Operation :=
  [.compile "waiting"
    "int twice(int n) { wait(1); return n + n; } int main() { return twice(twice(3)); }"]

def idleStack : Stack := ⟨⟨1⟩, ⟨1⟩, none, {}, none⟩

theorem suspension_transparent_of_waiting :
    ∃ entry, (Request.function "main" []).opened?
        (Host.after waitingProgram).engine.world.heap = some entry ∧
      (Direct.hostCall (Host.after waitingProgram).engine idleStack entry).1 =
        .completed (.int 12) ∧
      (Direct.hostCall (Host.after waitingProgram).engine idleStack entry).2.world =
        (((Request.function "main" []).start (Host.after waitingProgram).engine idleStack
          (.budget 0)).resumed [.unlimited, .budget 1, .unlimited, .unlimited]).engine.world :=
  suspension_transparent waitingProgram idleStack rfl (.function "main" []) (.budget 0)
    [.unlimited, .budget 1, .unlimited, .unlimited] (.completed (.int 12))
    (fun same => nomatch same) (Driven.outcome_of_int? (by decide +kernel))

end ScriptEngine
