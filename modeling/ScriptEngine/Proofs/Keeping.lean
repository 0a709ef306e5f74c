import ScriptEngine.Proofs.Bindings
import ScriptEngine.Proofs.Rebuilding
import ScriptEngine.Proofs.Standing
/-! Hosts that keep a discipline. Objects are made of what fits their members and every stack stands,
and so it stays whatever a host does that respects this: it drives calls with arguments of their types,
changes objects and restores stacks where they can go on. -/

namespace ScriptEngine

/-- A stack of another host can be restored here: the programs of its calls are loaded alike, with the
same classes, and the heap has gone on from the one that the stack was saved with. -/
structure Host.Welcomes (host saver : Host) (stack : Stack) : Prop where
  loaded : stack.root.isLoaded host.engine.code = true
  same : ∀ program ∈ stack.root.programs,
    host.engine.code.programs.get? program = saver.engine.code.programs.get? program
  classes : saver.engine.code.classes.Grows host.engine.code.classes
  heap : saver.engine.world.heap.Leads host.engine.world.heap

namespace Host

variable {disc : Discipline} {host after : Host} {past : Past} {known : List Function}

def realm (host : Host) : Realm := host.engine.code.realm host.engine.world

/-- What a host may do to its objects and stacks so that a discipline is kept. Handles may not come to
mean other objects, unless no call is suspended. -/
def admits (disc : Discipline) (host : Host) : Operation → Prop
  | .changeHeap change =>
      let heap := change host.engine.world.heap
      heap.Reusable ∧ heap.All (Object.IsBuilt host.engine.code.classes) ∧
        (heap.All fun object => ∀ field ∈ object.fields,
          disc.fits ⟨host.engine.code.classes, heap⟩ field.type field.value) ∧
        (host.engine.world.heap.Leads heap ∨
          ∀ stack ∈ host.executions, stack.isActive = false)
  | .call _ _ args _ | .callMethod _ _ _ args _ =>
      ∀ arg ∈ args, disc.fits host.realm arg.type arg.value
  | .reload place => ∀ stack, host.executions[place]? = some stack →
      stack.root.isLoaded host.engine.code = true
  | _ => True

structure Keeping (disc : Discipline) (host : Host) (past : Past) : Prop where
  healthy : disc.Healthy host.engine.code host.engine.world
  executions : ∀ stack ∈ host.executions, stack.Stands disc past host.realm

namespace Keeping

theorem fresh (remembers : disc.remembers {} {}) : Keeping disc {} past where
  healthy := ⟨⟨List.nodup_nil, nofun⟩, nofun,
    nofun, remembers⟩
  executions := nofun

theorem led (keeping : host.Keeping disc past) (lawful : disc.Lawful)
    (leads : host.realm.Leads after.realm)
    (healthy : disc.Healthy after.engine.code after.engine.world)
    (executions : ∀ stack ∈ after.executions,
      stack ∈ host.executions ∨ stack.Stands disc past after.realm) : after.Keeping disc past where
  healthy := healthy
  executions := fun stack among => (executions stack among).elim
    (fun kept => (keeping.executions stack kept).mono lawful
      ⟨fun _ among => among, fun _ _ gone => gone⟩ leads) id

theorem congr (keeping : host.Keeping disc past) (lawful : disc.Lawful)
    (code : after.engine.code = host.engine.code)
    (heap : after.engine.world.heap = host.engine.world.heap)
    (callees : after.engine.world.callees = host.engine.world.callees)
    (executions : ∀ stack ∈ after.executions,
      stack ∈ host.executions ∨ stack.Stands disc past host.realm) : after.Keeping disc past := by
  have same : after.realm = host.realm := by
    rw [realm, realm, Code.realm, Code.realm, code, heap]
  have leads := keeping.healthy.congr lawful heap callees
  refine keeping.led lawful (same ▸ .refl _) (code ▸ leads.healthy) ?_
  rw [same]
  exact executions

theorem mono {more : Past} (keeping : host.Keeping disc past) (lawful : disc.Lawful)
    (grows : past.Within more) : host.Keeping disc more where
  healthy := keeping.healthy
  executions := fun stack among =>
    (keeping.executions stack among).mono lawful grows (.refl _)

theorem driven {α : Type} {holds : α → Prop} (keeping : host.Keeping disc past)
    (lawful : disc.Lawful) {gate : Gate} {run : Stack → Driven}
    (drives : ∀ stack, host.engine.Drives stack gate (run stack)) {place : Nat}
    (keeps : ∀ stack, host.executions[place]? = some stack →
      ∃ notes, host.engine.Keeps holds disc past (run stack) notes) :
    (host.drive place run).Keeping disc past := by
  unfold drive
  split
  · rename_i stack found
    obtain ⟨notes, leads, stands, _, _⟩ := keeps stack found
    have code : (run stack).engine.code = host.engine.code := by
      rw [(drives stack).keeps]
    have realm : Host.realm ⟨(run stack).engine, host.executions.set place (run stack).stack⟩ =
        host.engine.code.realm (run stack).engine.world := by
      rw [Host.realm, code]
    refine keeping.led lawful ?_ (code ▸ leads.healthy) fun other among => ?_
    · rw [realm]
      exact leads.realm
    · rw [realm]
      rcases List.mem_or_eq_of_mem_set among with kept | rfl
      · exact Or.inl kept
      · exact Or.inr stands
  · exact keeping

end Keeping

theorem driving_keeps {α : Type} {watcher : Watcher α} {holds : α → Prop}
    (governs : disc.Governs past host.engine.code)
    (sees : watcher.Sees holds disc host.engine.code) (keeping : host.Keeping disc past)
    {operation : Operation} (admits : host.admits disc operation) {driven : Driven}
    {notes : List α} (drives : host.watching watcher operation = some (driven, notes)) :
    host.engine.Keeps holds disc past driven notes := by
  cases operation with
  | call place name args gate =>
      obtain ⟨stack, found, same⟩ := Option.map_eq_some_iff.mp drives
      cases same
      refine Engine.start_keeps governs sees keeping.healthy
        (keeping.executions stack (List.mem_of_getElem? found)) (fun receiver called => ?_) rfl ?_
        gate
      · cases called
      · exact admits
  | callMethod place handle name args gate =>
      obtain ⟨stack, found, same⟩ := Option.map_eq_some_iff.mp drives
      cases same
      have stands := keeping.executions stack (List.mem_of_getElem? found)
      unfold Engine.callMethod
      cases live : host.engine.world.heap.get? handle with
      | none =>
          refine ⟨.refl keeping.healthy, stands, fun error failed => ?_, fun note absurdity => ?_⟩
          · cases failed
          · cases absurdity
      | some object =>
          refine Engine.start_keeps governs sees keeping.healthy stands (fun receiver same => ?_) rfl
            ?_ gate
          · cases same
            exact .of_live live
              (ClassTable.derives_refl (keeping.healthy.built.get? live).contains)
          · exact admits
  | resume place gate =>
      obtain ⟨stack, found, same⟩ := Option.map_eq_some_iff.mp drives
      cases same
      exact Engine.drive_keeps governs sees keeping.healthy
        (keeping.executions stack (List.mem_of_getElem? found)) gate
  | register | compile | unload | set | newInstance | bindInstance | changeHeap | newStack | abort
  | copy | reload => cases drives

theorem step_loads {operation : Operation} (sets : operation.isSetup = true) :
    host.engine.code.classes.Grows (host.step operation).engine.code.classes ∧
      (host.step operation).engine.world.heap = host.engine.world.heap ∧
      (host.step operation).engine.world.callees = host.engine.world.callees ∧
      (host.step operation).executions = host.executions := by
  cases operation with
  | register decl =>
      simp only [step, Engine.register]
      cases registered : host.engine.code.classes.register decl with
      | error error => exact ⟨.refl _, rfl, rfl, rfl⟩
      | ok classes => exact ⟨ClassTable.register_grows registered, rfl, rfl, rfl⟩
  | compile name source =>
      unfold step Engine.compile
      dsimp only
      split <;> exact ⟨.refl _, rfl, rfl, rfl⟩
  | unload program =>
      simp only [step, Engine.unload]
      cases host.engine.code.programs.get? program <;> exact ⟨.refl _, rfl, rfl, rfl⟩
  | set setting value => cases setting <;> exact ⟨.refl _, rfl, rfl, rfl⟩
  | newInstance | bindInstance | changeHeap | newStack | call | callMethod | resume | abort | copy
  | reload => cases sets

/-- Whatever a host does that is admitted, the discipline is kept. -/
theorem step_keeping (formed : host.Formed known)
    (governs : disc.Governs (host.engine.past known) host.engine.code)
    (keeping : host.Keeping disc (host.engine.past known)) {operation : Operation}
    (admits : host.admits disc operation) (remembers : operation.isSetup = true →
      disc.remembers (host.step operation).engine.code (host.step operation).engine.world) :
    (host.step operation).Keeping disc (host.engine.past known) := by
  have lawful := governs.lawful
  have keeps := fun {driven mentions} => @driving_keeps disc host _ Mention Mention.watcher
    Mention.Bound governs governs.mentions keeping operation admits driven mentions
  -- Setting up leaves objects, call sites and stacks alone, everything else what is loaded.
  cases sets : operation.isSetup with
  | true =>
      obtain ⟨grows, heap, _, executions⟩ := @step_loads host operation sets
      refine keeping.led lawful ?_
        (keeping.healthy.recoded lawful grows heap (remembers sets)) fun stack among => ?_
      · rw [realm, realm, Code.realm, Code.realm, heap]
        exact ⟨grows, .refl _⟩
      · exact Or.inl (executions ▸ among)
  | false =>
      cases operation with
      | register | compile | unload | set => cases sets
      | newInstance className =>
          simp only [step, Engine.newInstance]
          cases members : host.engine.code.classes.members? className with
          | none => exact keeping
          | some fields =>
              have leads := keeping.healthy.allocate lawful members
              exact keeping.led lawful leads.realm leads.healthy fun _ kept => Or.inl kept
      | bindInstance program handle =>
          simp only [step, Engine.bindInstance]
          split
          · exact keeping
          · split
            · exact keeping
            · exact keeping.congr lawful rfl rfl rfl fun _ kept => Or.inl kept
      | changeHeap change =>
          -- Objects go on from where they were, or no stack has a handle to any.
          obtain ⟨reusable, built, fields, leads | idle⟩ := admits
          · exact keeping.led lawful ⟨.refl _, leads⟩
              ⟨reusable, built, fields, lawful.kept keeping.healthy.remembers rfl⟩
              fun _ kept => Or.inl kept
          · refine ⟨⟨reusable, built, fields, lawful.kept keeping.healthy.remembers rfl⟩,
              fun stack among => ?_⟩
            have ended : stack.entry = none := by
              simpa [Stack.isActive] using idle stack among
            exact .of_idle ended ((formed.executions stack among).idle ended)
      | newStack program =>
          refine keeping.congr lawful rfl rfl rfl fun stack among => ?_
          rcases List.mem_append.mp among with kept | new
          · exact Or.inl kept
          · rw [List.mem_singleton.mp new]
            exact Or.inr (.of_idle rfl rfl)
      | call place name args gate =>
          exact keeping.driven lawful (fun stack => Engine.start_drives ..) fun stack found =>
            ⟨_, keeps (Option.map_eq_some_iff.mpr ⟨stack, found, rfl⟩)⟩
      | callMethod place handle name args gate =>
          exact keeping.driven lawful (fun stack => Engine.callMethod_drives ..) fun stack found =>
            ⟨_, keeps (Option.map_eq_some_iff.mpr ⟨stack, found, rfl⟩)⟩
      | resume place gate =>
          exact keeping.driven lawful (fun _ => .resumed) fun stack found =>
            ⟨_, keeps (Option.map_eq_some_iff.mpr ⟨stack, found, rfl⟩)⟩
      | abort place =>
          simp only [step]
          split
          · refine keeping.congr lawful rfl rfl rfl fun stack among => ?_
            rcases List.mem_or_eq_of_mem_set among with kept | rfl
            · exact Or.inl kept
            · exact Or.inr (.of_idle rfl rfl)
          · exact keeping
      | copy place =>
          simp only [step]
          split
          · rename_i copied found
            refine keeping.congr lawful rfl rfl rfl fun stack among => ?_
            rcases List.mem_append.mp among with kept | new
            · exact Or.inl kept
            · rw [List.mem_singleton.mp new]
              exact Or.inl (List.mem_of_getElem? found)
          · exact keeping
      | reload place =>
          simp only [step]
          split
          · rename_i saved found
            split
            · rename_i engine restored done
              obtain ⟨rfl, rfl⟩ := Engine.restore_whole governs.toFits
                (formed.executions saved (List.mem_of_getElem? found)) (admits saved found) done
              refine keeping.congr lawful rfl rfl rfl fun stack among => Or.inl ?_
              rcases List.mem_or_eq_of_mem_set among with kept | rfl
              · exact kept
              · exact List.mem_of_getElem? found
            · exact keeping
          · exact keeping

/-- A stack that is welcome stands where it is restored. -/
theorem restoring_keeping {saver : Host} {before : List Function} {stack : Stack}
    (lawful : disc.Lawful) (saved : saver.Formed before)
    (standing : saver.Keeping disc (saver.engine.past before)) (formed : host.Formed known)
    (keeping : host.Keeping disc (host.engine.past known)) (among : stack ∈ saver.executions)
    (welcomes : host.Welcomes saver stack) :
    stack.Formed (host.engine.past known) ∧
      (host.restoring stack).Keeping disc (host.engine.past known) := by
  have loaded := welcomes.loaded
  rw [Frame.isLoaded_congr welcomes.same] at loaded
  have joins := saved.moved formed among welcomes.loaded welcomes.same
  have stands : stack.Stands disc (host.engine.past known) host.realm :=
    (standing.executions stack among).moved saved.knows.fits formed.knows.fits lawful
      ⟨welcomes.classes, welcomes.heap⟩ loaded welcomes.same
  refine ⟨joins, ?_⟩
  rcases restoring_eq formed.knows.fits joins welcomes.loaded with same | taken
  · rw [same]
    exact keeping
  · rw [taken]
    refine keeping.congr lawful rfl rfl rfl fun other among => ?_
    rcases List.mem_append.mp among with kept | new
    · exact Or.inl kept
    · rw [List.mem_singleton.mp new]
      exact Or.inr stands

end Host

end ScriptEngine
