import ScriptEngine.Proofs.Watched
import ScriptEngine.Proofs.Readmission
/-! Stacks whose calls keep a discipline. Driving the call on one leaves such a stack and fails with
nothing that is barred, and what is noted of it has the properties that the discipline gives. -/

namespace ScriptEngine

/-- The call on a stack is to be started, or under way, or was left behind by its program; a method is
called on an object of the class it is looked up in. Nothing is kept for a call that is to be started,
and its arguments are of their types. -/
structure Stack.Stands (disc : Discipline) (past : Past) (realm : Realm) (stack : Stack) : Prop where
  idle : stack.entry = none → stack.root = {}
  root : stack.root = {} ∨ (∃ function, Underway disc past realm (.call function) stack.root) ∨
    stack.root.Lost past
  receiver : ∀ entry receiver, stack.entry = some entry → entry.receiver = some receiver →
    realm.Refers receiver.handle receiver.className
  offers : ∀ entry, stack.entry = some entry → stack.root = {} → entry.kept = none ∧
    ∀ arg ∈ entry.args, disc.fits realm arg.type arg.value

section

variable {disc : Discipline} {past more : Past} {code other : Code} {realm further : Realm}

theorem Underway.moved (fits : past.Fits code) (also : more.Fits other) (lawful : disc.Lawful)
    (leads : realm.Leads further) {part : Part} {frame : Frame}
    (underway : Underway disc past realm part frame) (loaded : frame.isLoaded code = true)
    (same : ∀ program ∈ frame.programs, other.programs.get? program = code.programs.get? program) :
    Underway disc more further part frame := by
  induction underway with
  | operand place computed _ ih =>
      rw [Frame.isLoaded_single, Bool.and_eq_true] at loaded
      rw [Frame.programs_eval] at same
      exact .operand place (computed.later lawful leads) (ih loaded.2 same)
  | callee complete computed gives _ ih =>
      rw [Frame.isLoaded_single, Bool.and_eq_true] at loaded
      rw [Frame.programs_eval] at same
      exact .callee complete (computed.later lawful leads) (gives.later leads)
        (ih loaded.2 same)
  | lost complete computed lost =>
      rw [Frame.isLoaded_single, lost.not_isLoaded fits, Bool.and_false] at loaded
      cases loaded
  | value computes _ ih => exact .value computes (ih loaded same)
  | waiting => exact .waiting
  | nested _ ih => exact .nested (ih loaded same)
  | block place _ ih =>
      rw [Frame.isLoaded_single, Bool.and_eq_true] at loaded
      rw [Frame.programs_block] at same
      exact .block place (ih loaded.2 same)
  | queued among suits locks =>
      rw [Frame.isLoaded_leaf] at loaded
      rw [Frame.programs_call] at same
      exact .queued (fits.moved also among loaded (same _ (List.mem_cons_self ..)))
        (suits.later lawful leads) locks
  | declined among suits =>
      rw [Frame.isLoaded_leaf] at loaded
      rw [Frame.programs_call] at same
      exact .declined (fits.moved also among loaded (same _ (List.mem_cons_self ..)))
        (suits.later lawful leads)
  | running among suits _ ih =>
      rw [Frame.isLoaded_single, Bool.and_eq_true] at loaded
      rw [Frame.programs_call] at same
      refine .running (fits.moved also among loaded.1 (same _ (List.mem_cons_self ..)))
        (suits.later lawful leads) (ih loaded.2 fun program nested => same program ?_)
      exact List.mem_cons_of_mem _ (by simpa [Frame.programsIn] using nested)

end

namespace Stack.Stands

variable {disc : Discipline} {past more : Past} {realm further : Realm} {stack : Stack}

theorem mono (stands : stack.Stands disc past realm) (lawful : disc.Lawful)
    (grows : past.Within more) (leads : realm.Leads further) : stack.Stands disc more further where
  idle := stands.idle
  root := stands.root.imp_right (Or.imp
    (fun ⟨function, underway⟩ => ⟨function, underway.mono lawful grows leads⟩)
    fun lost => lost.mono grows)
  receiver := fun entry receiver started called =>
    (stands.receiver entry receiver started called).later leads
  offers := fun entry started fresh =>
    ⟨(stands.offers entry started fresh).1, fun arg given =>
      lawful.later ((stands.offers entry started fresh).2 arg given) leads⟩

theorem of_idle (entry : stack.entry = none) (root : stack.root = {}) :
    stack.Stands disc past realm where
  idle := fun _ => root
  root := Or.inl root
  receiver := by
    intro other receiver started
    rw [entry] at started
    cases started
  offers := by
    intro other started
    rw [entry] at started
    cases started

theorem moved {code other : Code} (stands : stack.Stands disc past realm) (fits : past.Fits code)
    (also : more.Fits other) (lawful : disc.Lawful) (leads : realm.Leads further)
    (loaded : stack.root.isLoaded code = true)
    (same : ∀ program ∈ stack.root.programs,
      other.programs.get? program = code.programs.get? program) :
    stack.Stands disc more further where
  idle := stands.idle
  root := by
    rcases stands.root with fresh | ⟨function, underway⟩ | lost
    · exact Or.inl fresh
    · exact Or.inr (Or.inl ⟨function, underway.moved fits also lawful leads loaded same⟩)
    · rw [lost.not_isLoaded fits] at loaded
      cases loaded
  receiver := fun entry receiver started called =>
    (stands.receiver entry receiver started called).later leads
  offers := fun entry started fresh =>
    ⟨(stands.offers entry started fresh).1, fun arg given =>
      lawful.later ((stands.offers entry started fresh).2 arg given) leads⟩

end Stack.Stands

theorem Discipline.Governs.takes {disc : Discipline} {past : Past} {code : Code} {world : World}
    (governs : disc.Governs past code) {function : Function} {args : Variables} {type : DataType}
    (answers : disc.answers code function (args.map Variable.type) type)
    (fits : ∀ arg ∈ args, disc.fits (code.realm world) arg.type arg.value) :
    disc.Takes (code.realm world) function args := by
  have bound : disc.Takes (code.realm world) function
      (Evaluation.arguments (args.map Variable.type) (args.map Variable.value)) := by
    refine governs.lawful.bound governs.founded answers (by simp) fun place given value typed held => ?_
    rw [List.getElem?_map, Option.map_eq_some_iff] at typed held
    obtain ⟨arg, found, rfl⟩ := typed
    obtain ⟨other, also, rfl⟩ := held
    obtain rfl := Option.some.inj (found.symm.trans also)
    exact fits arg (List.mem_of_getElem? found)
  intro place param placed
  have taken := bound place param placed
  rw [Evaluation.arguments, List.zipWith_map, List.zipWith_self, List.getElem?_map] at taken
  cases given : args[place]? with
  | none => simpa [given] using taken
  | some arg => simpa [given, Variable.holding] using taken

namespace Engine

/-- Driving a call is refused, or the call is over because its function is not there, or its function
runs. -/
theorem drive_cases {α : Type} (watcher : Watcher α) (engine : Engine) (stack : Stack) (gate : Gate)
    {motive : Driven → List α → Prop}
    (refused : ∀ error, motive ⟨.error error, engine, stack, gate⟩ [])
    (gone : motive ⟨.ok (.failed ⟨.unknownFunction, none⟩), engine,
      { stack with lastError := some ⟨.unknownFunction, none⟩ }.finish, gate⟩ [])
    (missing : ∀ cause, motive ⟨.ok (.notFound cause), engine, stack.finish, gate⟩ [])
    (entered : ∀ entry function kept, stack.entry = some entry →
      entryCallee engine.code stack entry = .found function kept →
        motive (engine.ran stack entry kept (Invocation.run engine.code stack.context
            engine.code.maxCallDepth (entry.invocation function stack.program) stack.root
            ⟨engine.world, gate⟩))
          (Invocation.notes watcher engine.code stack.context engine.code.maxCallDepth
            (entry.invocation function stack.program) stack.root ⟨engine.world, gate⟩)) :
    motive (engine.drive stack gate) (engine.notes watcher stack gate) := by
  unfold notes drive
  cases started : stack.entry with
  | none => exact refused _
  | some entry =>
      by_cases unknown : (engine.code.programs.get? stack.program).isNone = true
      · simp only [if_pos unknown]
        exact refused _
      · simp only [if_neg unknown]
        cases found : entryCallee engine.code stack entry with
        | gone => exact gone
        | notFound cause => exact missing cause
        | found function kept =>
            have reached := entered entry function kept started found
            unfold EntryCall.invocation at reached ⊢
            dsimp only
            generalize Invocation.run _ _ _ _ _ _ = ended at reached ⊢
            obtain ⟨progress, machine⟩ := ended
            cases progress <;> exact reached

section

variable {α : Type} {watcher : Watcher α} {holds : α → Prop} {disc : Discipline} {past : Past}
  {engine : Engine} {stack : Stack}

theorem ready_of_stands (governs : disc.Governs past engine.code)
    (healthy : disc.Healthy engine.code engine.world)
    (stands : stack.Stands disc past (engine.code.realm engine.world)) {entry : EntryCall}
    {function : Function} {kept : Option FunctionId} (started : stack.entry = some entry)
    (found : entryCallee engine.code stack entry = .found function kept) :
    Ready disc past engine.code (entry.invocation function stack.program) stack.root
      engine.world := by
  -- A call starts, goes on where it yielded, or is one whose function is gone and is not found.
  rcases stands.root with fresh | ⟨suspended, underway⟩ | ⟨call, held, gone⟩
  · have idle : stack.root.call? = none := by
      rw [fresh]
      rfl
    unfold entryCallee Evaluation.callee at found
    rw [idle] at found
    dsimp only at found
    obtain ⟨unkept, fits⟩ := stands.offers entry started fresh
    have resolved : engine.code.Owns function ∧
        (∃ type, disc.answers engine.code function (entry.args.map Variable.type) type) ∧
        ∀ owner handle, function.owner = some owner →
          entry.receiver.map Receiver.handle = some handle →
            (engine.code.realm engine.world).Refers handle owner := by
      rw [unkept] at found
      cases given : entry.receiver with
      | none =>
          rw [given] at found
          split at found
          · rename_i resolved
            cases found
            exact ⟨governs.consistent.resolveCall resolved, governs.calls resolved,
              nofun⟩
          · cases found
      | some receiver =>
          rw [given] at found
          split at found
          · rename_i resolved
            cases found
            have owns := governs.consistent.resolveMethod resolved
            refine ⟨owns, governs.methods resolved, fun owner handle owned same => ?_⟩
            cases same
            obtain ⟨holder, derives, enclosed⟩ := Code.owner_of_resolveMethod resolved
            have own := (governs.coherent _ (governs.owned _ owns)).enclosed holder enclosed
            rw [owned] at own
            cases own
            exact (stands.receiver entry receiver started given).base governs.founded derives
          · cases found
    obtain ⟨owns, ⟨type, answers⟩, refers⟩ := resolved
    refine ⟨owns, healthy, Or.inl ⟨fresh, ?_, refers⟩⟩
    exact governs.takes answers fits
  · obtain ⟨among, step, held⟩ := underway.call_held
    unfold entryCallee Evaluation.callee Frame.call? at found
    simp only [held] at found
    split at found
    · rename_i loaded
      cases found
      obtain rfl := governs.same _ among function loaded
      exact ⟨loaded, healthy, Or.inr underway⟩
    · cases found
  · have missing := governs.gone _ _ gone
    unfold entryCallee Evaluation.callee Frame.call? at found
    simp only [held, missing] at found
    cases found

structure Keeps {α : Type} (holds : α → Prop) (disc : Discipline) (past : Past) (engine : Engine)
    (driven : Driven) (notes : List α) : Prop where
  leads : disc.Leads engine.code engine.world driven.engine.world
  stands : driven.stack.Stands disc past (engine.code.realm driven.engine.world)
  spared : ∀ error, driven.outcome = .ok (.failed error) → ¬ disc.bars error.cause
  noted : ∀ note ∈ notes, holds note

theorem drive_keeps (governs : disc.Governs past engine.code)
    (sees : watcher.Sees holds disc engine.code)
    (healthy : disc.Healthy engine.code engine.world)
    (stands : stack.Stands disc past (engine.code.realm engine.world)) (gate : Gate) :
    engine.Keeps holds disc past (engine.drive stack gate)
      (engine.notes watcher stack gate) := by
  have silent : ∀ note ∈ ([] : List α), holds note := List.forall_mem_nil _
  refine drive_cases watcher engine stack gate (fun error => ?_) ?_ (fun cause => ?_)
    fun entry function kept started found => ?_
  · exact ⟨.refl healthy, stands, by rintro _ ⟨⟩, silent⟩
  · refine ⟨.refl healthy, .of_idle rfl rfl, fun error failed => ?_, silent⟩
    cases failed
    exact governs.lawful.spares rfl
  · exact ⟨.refl healthy, .of_idle rfl rfl, by rintro _ ⟨⟩, silent⟩
  · have ready := ready_of_stands governs healthy stands started found
    have reached := run_comes governs stack.context engine.code.maxCallDepth _ _
      ⟨engine.world, gate⟩ ready
    have noted := notes_hold governs sees stack.context engine.code.maxCallDepth _ _
      ⟨engine.world, gate⟩ ready
    generalize Invocation.run _ _ _ _ _ _ = ended at reached ⊢
    obtain ⟨progress, machine⟩ := ended
    obtain ⟨leads, reached⟩ := reached
    cases progress with
    | done value => exact ⟨leads, .of_idle rfl rfl, by rintro _ ⟨⟩, noted⟩
    | failed error =>
        refine ⟨leads, .of_idle rfl rfl, fun other failed => ?_, noted⟩
        cases failed
        exact reached
    | suspended root =>
        obtain ⟨_, step, held⟩ := reached.call_held
        refine ⟨leads, ⟨by rintro ⟨⟩, Or.inr (Or.inl ⟨function, reached⟩), ?_, ?_⟩, by rintro _ ⟨⟩,
          noted⟩
        · intro other receiver same called
          cases same
          exact (stands.receiver entry receiver started called).later leads.realm
        · rintro other _ (fresh : root = {})
          rw [fresh] at held
          cases held

theorem start_keeps (governs : disc.Governs past engine.code)
    (sees : watcher.Sees holds disc engine.code)
    (healthy : disc.Healthy engine.code engine.world)
    (stands : stack.Stands disc past (engine.code.realm engine.world)) {entry : EntryCall}
    (refers : ∀ receiver, entry.receiver = some receiver →
      (engine.code.realm engine.world).Refers receiver.handle receiver.className)
    (unkept : entry.kept = none)
    (fits : ∀ arg ∈ entry.args, disc.fits (engine.code.realm engine.world) arg.type arg.value)
    (gate : Gate) :
    engine.Keeps holds disc past (engine.start stack entry gate)
      (engine.startNotes watcher stack entry gate) := by
  unfold start startNotes
  split
  · exact ⟨.refl healthy, stands, by rintro _ ⟨⟩, List.forall_mem_nil _⟩
  · refine drive_keeps governs sees healthy ⟨fun _ => rfl, Or.inl rfl, ?_, ?_⟩ gate
    · intro other receiver same called
      cases same
      exact refers receiver called
    · intro other same _
      cases same
      exact ⟨unkept, fits⟩

end

end Engine

end ScriptEngine
