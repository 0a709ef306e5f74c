import ScriptEngine.Proofs.Executing
import ScriptEngine.Proofs.Stranding
/-! Unloaded programs. Identities of programs and functions are handed out once, so what was unloaded is
not loaded again, whatever is done later. Nothing that is kept of it, on a stack, at a call site or in
an index, leads to its functions any more. -/

namespace ScriptEngine

def Program.Excludes (program : Program) (function : Function) : Prop :=
  function.program ≠ program.id ∧ function.id ∉ program.functions.map Function.id

/-- The ways to a function: from a call of the host, from a call site that may keep any identity,
from a name and argument types, from the public functions, from a call that is suspended, and from an
identity. -/
inductive Code.Reaches (code : Code) (function : Function) : Prop
  | entry {stack : Stack} {entry : EntryCall} {kept : Option FunctionId} :
      Engine.entryCallee code stack entry = .found function kept → Reaches code function
  | site {activation : Activation} {site : CallSite} {types : List DataType} {frame : Frame}
      {machine : Machine} {kept : Option FunctionId} {receiver : Option Handle} {args : Variables} :
      activation.code = code → Evaluation.choose activation site types frame machine =
        .ok (.found function kept, receiver, args) → Reaches code function
  | free {program : ProgramId} {kept found : Option FunctionId} {name : String}
      {args : List DataType} :
      code.resolveCall program kept name args = (.ok function, found) → Reaches code function
  | method {className : String} {kept found : Option FunctionId} {name : String}
      {args : List DataType} :
      code.resolveMethod className kept name args = (.ok function, found) → Reaches code function
  | listed : function ∈ code.publicFunctions → Reaches code function
  | suspended {call : Call} : code.programs.function? call.program call.function = some function →
      Reaches code function
  | identified {id : FunctionId} : code.function? id = some function → Reaches code function

namespace Host

/-- The hosts that any operations lead to from another one. Any stack may be loaded on the way, wherever
it was saved, and stacks may be dropped. -/
inductive Follows (start : Host) : Host → Prop
  | here : Follows start start
  | step {host : Host} (operation : Operation) :
      Follows start host → Follows start (host.step operation)
  | loaded {host : Host} (stack : Stack) : Follows start host → Follows start (host.restoring stack)
  | dropped {host : Host} (place : Nat) : Follows start host →
      Follows start { host with executions := host.executions.eraseIdx place }

def Completes (host : Host) (place : Nat) (operation : Operation) : Prop :=
  ∃ ride value, host.rides operation = some ride ∧ ride.place = place ∧
    (host.engine.drive ride.stack ride.gate).outcome = .ok (.completed value)

/-- The call on the stack at a place of a host is not over on a later host, where its stack is at
another place, or a copy of it. -/
inductive Carries (host : Host) (place : Nat) : Host → Nat → Prop
  | here : Carries host place host place
  | step {later : Host} {spot : Nat} (operation : Operation) : Carries host place later spot →
      (later.step operation).executions[spot]?.any Stack.isActive = true →
      Carries host place (later.step operation) spot
  | copied {later : Host} {spot : Nat} : Carries host place later spot →
      Carries host place (later.step (.copy spot)) later.executions.length
  | restored {saver later : Host} {spot : Nat} {stack : Stack} : Carries host place later spot →
      saver.Reachable → stack ∈ saver.executions → later.Accepts saver stack →
      Carries host place (later.restoring stack) spot
  | dropped {later : Host} {spot other : Nat} : Carries host place later spot → other ≠ spot →
      Carries host place { later with executions := later.executions.eraseIdx other }
        (if other < spot then spot - 1 else spot)

/-- Nothing is left that leads a host into a program: what is executed is not of it, no function of it
is found, and a call that is suspended in it never completes. -/
structure Shuns (host : Host) (program : Program) : Prop where
  executes : ∀ operation, ∀ execution ∈ host.executed operation,
    program.Excludes execution.function
  reaches : ∀ function, host.engine.code.Reaches function → program.Excludes function
  strands : host.Reachable → ∀ {place stack}, host.executions[place]? = some stack →
    program.id ∈ stack.root.programs → ∀ {last spot}, host.Carries place last spot →
      ∀ operation, ¬ last.Completes spot operation

end Host

/-- All ways lead to functions that are loaded. -/
theorem Engine.Knows.reaches {engine : Engine} {known : List Function} (knows : engine.Knows known)
    {function : Function} (reaches : engine.code.Reaches function) :
    engine.code.Owns function := by
  have consistent := knows.consistent
  cases reaches with
  | entry found => exact Engine.entryCallee_owns consistent found
  | site same chosen =>
      rw [← same] at consistent ⊢
      exact Evaluation.choose_owns consistent chosen
  | free found => exact consistent.resolveCall found
  | method found => exact consistent.resolveMethod found
  | listed among => exact consistent.published function among
  | suspended found => exact consistent.owns found
  | identified found =>
      unfold Code.function? at found
      split at found
      · rename_i own
        cases found
        obtain ⟨program, loaded, declared⟩ := List.exists_of_findSome?_eq_some own
        exact consistent.own program loaded _ (List.mem_of_find?_eq_some declared)
      · obtain ⟨other, listed, same⟩ := (PublicIndex.get?_eq_some_iff ..).mp found
        cases same
        obtain ⟨_, program, loaded, declared, _⟩ := knows.mem_published listed
        exact consistent.own program loaded _ declared

theorem Programs.get?_eq_none_iff {programs : Programs} {id : ProgramId} :
    programs.get? id = none ↔ ∀ program ∈ programs, program.id ≠ id := by
  unfold get?
  rw [List.find?_eq_none]
  constructor
  · intro absent program among
    simpa using absent program among
  · intro absent program among
    simpa using absent program among

structure Engine.Forgot (engine : Engine) (program : Program) (known : List Function) : Prop
    extends engine.Knows known where
  old : ∀ own ∈ program.functions, own ∈ known ∧ own.program = program.id
  spent : program.id.number ≤ engine.ids.lastProgram
  gone : engine.code.programs.get? program.id = none

namespace Engine

variable {engine after : Engine} {known : List Function} {program : Program}

theorem Turn.programs (turn : engine.Turn after) :
    engine.ids.lastProgram ≤ after.ids.lastProgram ∧ ∀ program ∈ after.code.programs,
      program ∈ engine.code.programs ∨ engine.ids.lastProgram < program.id.number := by
  cases turn with
  | kept programs _ _ _ numbers =>
      rw [programs, numbers]
      exact ⟨Nat.le_refl _, fun _ among => Or.inl among⟩
  | unloaded unloaded =>
      unfold Engine.unload at unloaded
      split at unloaded
      · cases unloaded
      · cases unloaded
        exact ⟨Nat.le_refl _, fun program among => Or.inl (List.mem_filter.mp among).1⟩
  | compiled name source =>
      unfold Engine.compile
      dsimp only
      cases compiled : Compiler.compile engine.compileEnv engine.ids.nextProgram.1 name source
        engine.ids.nextProgram.2 with
      | mk result behind =>
          obtain ⟨ids, published⟩ := behind
          cases result with
          | error error =>
              obtain ⟨count, counted⟩ := Compiler.compile_failed compiled
              rw [counted]
              exact ⟨Nat.le_succ _, fun _ among => Or.inl among⟩
          | ok program =>
              have made := Compiler.compile_made compiled
              rw [made.counted]
              refine ⟨Nat.le_succ _, fun loaded among => ?_⟩
              rcases List.mem_append.mp among with old | new
              · exact Or.inl old
              · rw [List.mem_singleton.mp new, made.named]
                exact Or.inr (Nat.lt_succ_self _)

theorem Turn.gone (turn : engine.Turn after) {id : ProgramId}
    (spent : id.number ≤ engine.ids.lastProgram) (gone : engine.code.programs.get? id = none) :
    id.number ≤ after.ids.lastProgram ∧ after.code.programs.get? id = none := by
  obtain ⟨grows, loaded⟩ := turn.programs
  refine ⟨Nat.le_trans spent grows, ?_⟩
  rw [Programs.get?_eq_none_iff]
  intro other among same
  rcases loaded other among with kept | new
  · exact Programs.get?_eq_none_iff.mp gone other kept same
  · rw [same] at new
    exact absurd spent (Nat.not_le.mpr new)

theorem Forgot.turn (forgot : engine.Forgot program known) (turn : engine.Turn after) :
    ∃ known, after.Forgot program known := by
  obtain ⟨more, knows⟩ := turn.knows forgot.toKnows
  obtain ⟨spent, gone⟩ := turn.gone forgot.spent forgot.gone
  refine ⟨known ++ more, knows, fun own among => ?_, spent, gone⟩
  exact ⟨List.mem_append_left _ (forgot.old own among).1, (forgot.old own among).2⟩

theorem Forgot.excludes (forgot : engine.Forgot program known) {function : Function}
    (owns : engine.code.Owns function) : program.Excludes function := by
  have apart : function.program ≠ program.id := by
    intro same
    rw [Code.Owns, Programs.function?, same, forgot.gone] at owns
    cases owns
  refine ⟨apart, fun listed => ?_⟩
  obtain ⟨own, declared, same⟩ := List.mem_map.mp listed
  obtain ⟨among, named⟩ := forgot.old own declared
  obtain ⟨holder, loaded, _, also, _⟩ := forgot.function?_iff.mp owns
  rw [forgot.same among (forgot.loaded holder loaded function also).1 same] at named
  exact apart named

theorem Knows.forgot (knows : engine.Knows known)
    (loaded : engine.code.programs.get? program.id = some program)
    (unloaded : engine.unload program.id = .ok after) : after.Forgot program known := by
  have later := knows.unload unloaded
  obtain ⟨among, _⟩ := Programs.mem_of_get? loaded
  simp only [Engine.unload, loaded, Except.ok.injEq] at unloaded
  subst unloaded
  refine ⟨later, knows.loaded program among, knows.numbered program among, ?_⟩
  rw [Programs.get?_eq_none_iff]
  intro other kept
  exact of_decide_eq_true (List.mem_filter.mp kept).2

end Engine

namespace Host

variable {host later : Host} {program : Program} {known : List Function}

theorem restoring_turn (host : Host) (stack : Stack) :
    host.engine.Turn (host.restoring stack).engine := by
  unfold restoring
  cases done : host.engine.restore stack.unbound with
  | error error => exact .of_world rfl
  | ok restored =>
      obtain ⟨engine, restored⟩ := restored
      obtain ⟨_, rfl, rfl⟩ | ⟨_, _, rfl, rfl⟩ := Engine.restore_cases done
      · exact .of_world rfl
      · exact .kept rfl rfl (fun _ _ found => found) rfl rfl

theorem Follows.forgot (forgot : host.engine.Forgot program known) (follows : host.Follows later) :
    ∃ known, later.engine.Forgot program known := by
  induction follows with
  | here => exact ⟨known, forgot⟩
  | step operation _ ih =>
      obtain ⟨known, forgot⟩ := ih
      exact forgot.turn (step_turn _ operation)
  | loaded stack _ ih =>
      obtain ⟨known, forgot⟩ := ih
      exact forgot.turn (restoring_turn _ stack)
  | dropped place _ ih => exact ih

/-- What may become of a stack while an operation is done. -/
inductive Becomes (host : Host) (stack : Stack) : Stack → Prop
  | kept : Becomes host stack stack
  | driven {gate : Gate} {driven : Driven} : host.engine.Drives stack gate driven →
      Becomes host stack driven.stack
  | finished : Becomes host stack stack.finish
  | restored {engine : Engine} {restored : Stack} :
      host.engine.restore stack.unbound = .ok (engine, restored) → Becomes host stack restored

variable {place : Nat} {stack : Stack}

theorem set_place (here : host.executions[place]? = some stack) {other : Nat} {found new : Stack}
    (there : host.executions[other]? = some found) (becomes : host.Becomes found new) :
    ∃ after, (host.executions.set other new)[place]? = some after ∧ host.Becomes stack after := by
  by_cases same : other = place
  · subst same
    rw [here] at there
    cases there
    have within := (List.getElem?_eq_some_iff.mp here).1
    exact ⟨new, List.getElem?_set_self within, becomes⟩
  · exact ⟨stack, by rw [List.getElem?_set_ne same, here], .kept⟩

theorem drive_place {run : Stack → Driven} {gate : Gate}
    (drives : ∀ stack, host.engine.Drives stack gate (run stack))
    (here : host.executions[place]? = some stack) (other : Nat) :
    ∃ after, (host.drive other run).executions[place]? = some after ∧
      host.Becomes stack after := by
  unfold drive
  split
  · rename_i found there
    exact set_place here there (.driven (drives found))
  · exact ⟨stack, here, .kept⟩

theorem step_place (here : host.executions[place]? = some stack) (operation : Operation) :
    ∃ after, (host.step operation).executions[place]? = some after ∧ host.Becomes stack after := by
  have engines : ∀ result, ∃ after, (host.withEngine result).executions[place]? = some after ∧
      host.Becomes stack after := by
    intro result
    cases result <;> exact ⟨stack, here, .kept⟩
  have added : ∀ new, ∃ after, (host.executions ++ [new])[place]? = some after ∧
      host.Becomes stack after := by
    intro new
    rw [List.getElem?_append_left (List.getElem?_eq_some_iff.mp here).1]
    exact ⟨stack, here, .kept⟩
  cases operation with
  | register | unload | newInstance | bindInstance => exact engines _
  | compile | set | changeHeap => exact ⟨stack, here, .kept⟩
  | newStack program => exact added _
  | call other name args gate => exact drive_place (fun stack => Engine.start_drives ..) here other
  | callMethod other handle name args gate =>
      exact drive_place (fun stack => Engine.callMethod_drives ..) here other
  | resume other gate => exact drive_place (fun _ => .resumed) here other
  | abort other =>
      simp only [step]
      split
      · rename_i there
        exact set_place here there .finished
      · exact ⟨stack, here, .kept⟩
  | copy other =>
      simp only [step]
      split
      · exact added _
      · exact ⟨stack, here, .kept⟩
  | reload other =>
      simp only [step]
      split
      · rename_i there
        split
        · rename_i done
          exact set_place here there (.restored done)
        · exact ⟨stack, here, .kept⟩
      · exact ⟨stack, here, .kept⟩

structure Stranded (host : Host) (program : Program) (place : Nat) : Prop where
  reachable : host.Reachable
  forgot : ∃ known, host.engine.Forgot program known
  inside : ∃ stack, host.executions[place]? = some stack ∧ program.id ∈ stack.root.programs

end Host

theorem Stack.active_of_programs {past : Past} {stack : Stack} (formed : stack.Formed past)
    {program : ProgramId} (inside : program ∈ stack.root.programs) : stack.isActive = true := by
  cases started : stack.entry with
  | none =>
      rw [formed.idle started] at inside
      cases inside
  | some entry => simp [isActive, started]

theorem Engine.restore_programs {engine after : Engine} {past : Past} {stack restored : Stack}
    (fits : past.Fits engine.code) (rests : stack.Rests past.known engine.code.classes)
    (done : engine.restore stack.unbound = .ok (after, restored)) :
    restored.root.programs = stack.root.programs := by
  obtain ⟨_, _, rfl⟩ | ⟨_, _, _, rfl⟩ := restore_cases done
  · exact Frame.programs_unbound stack.root
  · rcases rests with fresh | ⟨function, paused⟩
    · simp [Stack.unbound, fresh, Frame.unbound_leaf, Frame.height, Frame.heights,
        Restoration.restore, Restoration.restoreCall, Frame.call?]
    · exact Restoration.programs_restored fits paused _ _

namespace Host.Stranded

variable {host : Host} {program : Program} {place : Nat}

theorem missing (stranded : host.Stranded program place) :
    host.engine.code.programs.get? program.id = none := by
  obtain ⟨known, forgot⟩ := stranded.forgot
  exact forgot.gone

theorem step (stranded : host.Stranded program place) (operation : Operation)
    (active : (host.step operation).executions[place]?.any Stack.isActive = true) :
    (host.step operation).Stranded program place := by
  obtain ⟨stack, here, inside⟩ := stranded.inside
  obtain ⟨known, resting⟩ := stranded.reachable.resting
  obtain ⟨_, forgot⟩ := stranded.forgot
  have later := forgot.turn (step_turn host operation)
  obtain ⟨after, there, becomes⟩ := step_place here operation
  have among := List.mem_of_getElem? here
  have rests := resting.rests stack among
  refine ⟨.step operation stranded.reachable, later, after, there, ?_⟩
  rw [there, Option.any_some] at active
  cases becomes with
  | kept => exact inside
  | driven drives =>
      cases drives with
      | refused => exact inside
      | started entry idle =>
          rw [Stack.active_of_programs (resting.executions stack among) inside] at idle
          cases idle
      | resumed => exact (Engine.drive_blocked resting.knows.fits rests forgot.gone inside _).2 active
  | finished => cases active
  | restored done =>
      rw [Engine.restore_programs resting.knows.fits rests done]
      exact inside

theorem not_completes (stranded : host.Stranded program place) (operation : Operation) :
    ¬ host.Completes place operation := by
  rintro ⟨ride, value, rides, rfl, completed⟩
  obtain ⟨stack, here, inside⟩ := stranded.inside
  obtain ⟨known, resting⟩ := stranded.reachable.resting
  have among := List.mem_of_getElem? here
  obtain ⟨other, there, same | ⟨idle, _⟩⟩ := rides_place rides
  · rw [here] at there
    cases there
    rw [same] at completed
    exact (Engine.drive_blocked resting.knows.fits (resting.rests stack among) stranded.missing
      inside ride.gate).1 value completed
  · rw [here] at there
    cases there
    rw [Stack.active_of_programs (resting.executions stack among) inside] at idle
    cases idle

theorem carried (stranded : host.Stranded program place) {later : Host} {spot : Nat}
    (carries : host.Carries place later spot) : later.Stranded program spot := by
  induction carries with
  | here => exact stranded
  | step operation _ active ih => exact ih.step operation active
  | @copied later spot _ ih =>
      obtain ⟨reachable, ⟨known, forgot⟩, stack, here, inside⟩ := ih
      refine ⟨.step (.copy spot) reachable, forgot.turn (step_turn later _), stack, ?_, inside⟩
      simp [Host.step, here]
  | @restored saver later spot stack _ saved among accepts ih =>
      obtain ⟨reachable, ⟨known, forgot⟩, old, here, inside⟩ := ih
      refine ⟨.restored saved reachable among accepts, forgot.turn (restoring_turn later stack), old,
        ?_, inside⟩
      unfold restoring
      split
      · rw [← here]
        exact List.getElem?_append_left (List.getElem?_eq_some_iff.mp here).1
      · exact here
  | @dropped later spot other _ apart ih =>
      obtain ⟨reachable, forgot, stack, here, inside⟩ := ih
      refine ⟨.dropped other reachable, forgot, stack, ?_, inside⟩
      rw [← here]
      dsimp only
      rw [List.getElem?_eraseIdx]
      by_cases before : other < spot
      · rw [if_pos before, if_neg (by omega)]
        congr 1
        omega
      · rw [if_neg before, if_pos (by omega)]

end Host.Stranded

/-- Whatever a host does after it has unloaded a program, nothing of the program is executed again. -/
theorem unloaded_code_never_runs {host later : Host} {program : Program}
    (reachable : host.Reachable)
    (loaded : host.engine.code.programs.get? program.id = some program)
    (follows : (host.step (.unload program.id)).Follows later) : later.Shuns program := by
  obtain ⟨known, resting⟩ := reachable.resting
  have unloads : ∃ engine, host.engine.unload program.id = .ok engine := by
    simp [Engine.unload, loaded]
  obtain ⟨engine, unloaded⟩ := unloads
  have first : (host.step (.unload program.id)).engine.Forgot program known := by
    simp only [Host.step, unloaded, Host.withEngine]
    exact resting.knows.forgot loaded unloaded
  obtain ⟨known, forgot⟩ := follows.forgot first
  constructor
  · intro operation execution among
    exact forgot.excludes ((Host.executed_owned forgot.consistent operation).each execution among)
  · intro function reaches
    exact forgot.excludes (forgot.reaches reaches)
  · intro reachable place stack here inside last spot carries
    have stranded : later.Stranded program place :=
      ⟨reachable, ⟨known, forgot⟩, stack, here, inside⟩
    exact (stranded.carried carries).not_completes

def library : String :=
  "class Robot \x7b int rest(int n) \x7b wait(n); energy = n; return energy; \x7d \x7d
    public int twice(int n) \x7b return n + n; \x7d"

def robot : Variables := [.holding "" (.object "Robot") (.object ⟨0, 0⟩)]

def borrowing : List Operation :=
  [.register { name := "Robot", fields := [⟨"energy", .int, false⟩] },
    .compile "library" library,
    .compile "main" "int main(Robot robot) \x7b int a = robot.rest(1); return twice(a); \x7d",
    .newInstance "Robot", .newStack ⟨2⟩, .newStack ⟨2⟩, .call 0 "main" robot .unlimited]

theorem unloaded_code_never_runs_of_borrowing : ∃ program : Program,
    program.id = ⟨1⟩ ∧ (Host.after borrowing).engine.code.programs.get? program.id = some program ∧
    let later := ((Host.after borrowing).step (.unload program.id)).step (.compile "again" library)
    (later.executions.map fun stack => stack.root.programs) = [[⟨2⟩, program.id], []] ∧
    ((later.step (.resume 0 .unlimited)).executions.map Stack.lastError) =
      [some ⟨.unknownFunction, none⟩, none] ∧
    ((later.executed (.resume 0 .unlimited)).map fun execution => execution.function.program) =
      [⟨2⟩] ∧
    ((later.executed (.call 1 "main" robot .unlimited)).map fun execution =>
      execution.function.program) = [⟨2⟩, ⟨3⟩] ∧
    later.Reachable ∧ later.Shuns program := by
  have shown : ((Host.after borrowing).engine.code.programs.get? ⟨1⟩).isSome = true ∧
      let later := ((Host.after borrowing).step (.unload ⟨1⟩)).step (.compile "again" library)
      (later.executions.map fun stack => stack.root.programs) = [[⟨2⟩, ⟨1⟩], []] ∧
      ((later.step (.resume 0 .unlimited)).executions.map Stack.lastError) =
        [some ⟨.unknownFunction, none⟩, none] ∧
      ((later.executed (.resume 0 .unlimited)).map fun execution => execution.function.program) =
        [⟨2⟩] ∧
      ((later.executed (.call 1 "main" robot .unlimited)).map fun execution =>
        execution.function.program) = [⟨2⟩, ⟨3⟩] := by
    decide +kernel
  obtain ⟨there, frames, failed, resumed, called⟩ := shown
  obtain ⟨program, loaded⟩ := Option.isSome_iff_exists.mp there
  obtain ⟨_, named⟩ := Programs.mem_of_get? loaded
  have reachable := Host.after_reachable borrowing
  rw [← named] at loaded frames failed resumed called
  exact ⟨program, named, loaded, frames, failed, resumed, called, .step _ (.step _ reachable),
    unloaded_code_never_runs reachable loaded (.step _ .here)⟩

end ScriptEngine
