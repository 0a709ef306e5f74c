import ScriptEngine.Compiler
import ScriptEngine.Proofs.Names
/-! Compiled functions are coherent. Reading a body numbers every local by its place in the table of
locals, and no two locals of a function share a name, not even in blocks beside each other. -/

namespace ScriptEngine

theorem ok_of_bind {ε α β : Type} {first : Except ε α} {next : α → Except ε β} {result : β}
    (done : first >>= next = .ok result) : ∃ value, first = .ok value ∧ next value = .ok result := by
  cases first with
  | error error => cases done
  | ok value => exact ⟨value, rfl, done⟩

namespace Scope

structure Sound (scope : Scope) : Prop where
  distinct : scope.locals.Nodup
  taken : ∀ name ∈ scope.locals, name ∈ scope.taken

structure Leads (scope : Scope) (declared : List (VarId × String)) (later : Scope) : Prop where
  grown : ∃ more, later.locals = scope.locals ++ more
  taken : ∀ name ∈ scope.taken, name ∈ later.taken
  sound : scope.Sound → later.Sound
  /-- No new local has a name that was taken. -/
  fresh : ∀ name ∈ scope.taken, name ∈ later.locals → name ∈ scope.locals
  placed : ∀ entry ∈ declared, later.locals[entry.1.number]? = some entry.2

section

variable {scope between later : Scope} {declared more : List (VarId × String)}

theorem Leads.of_same (locals : later.locals = scope.locals) (taken : later.taken = scope.taken) :
    scope.Leads [] later where
  grown := ⟨[], by rw [locals, List.append_nil]⟩
  taken := by
    rw [taken]
    exact fun _ among => among
  sound := fun sound => ⟨locals ▸ sound.distinct, by
    rw [locals, taken]
    exact sound.taken⟩
  fresh := by
    rw [locals]
    exact fun _ _ among => among
  placed := nofun

theorem Leads.trans (first : scope.Leads declared between) (second : between.Leads more later) :
    scope.Leads (declared ++ more) later where
  grown := by
    obtain ⟨new, grown⟩ := first.grown
    obtain ⟨newer, further⟩ := second.grown
    exact ⟨new ++ newer, by rw [further, grown, List.append_assoc]⟩
  taken := fun name among => second.taken name (first.taken name among)
  sound := fun sound => second.sound (first.sound sound)
  fresh := fun name among known =>
    first.fresh name among (second.fresh name (first.taken name among) known)
  placed := by
    intro entry among
    rcases List.mem_append.mp among with old | new
    · obtain ⟨newer, further⟩ := second.grown
      have placed := first.placed entry old
      have inside := (List.getElem?_eq_some_iff.mp placed).1
      rw [further, List.getElem?_append_left inside]
      exact placed
    · exact second.placed entry new

theorem addLocal_leads {name : String} {type : DataType} {span : Span} {id : VarId}
    (added : scope.addLocal name type span = .ok (id, later)) :
    scope.Leads [(id, name)] later := by
  obtain ⟨free, rfl, rfl⟩ := addLocal_eq_ok_iff.mp added
  refine ⟨⟨[name], rfl⟩, fun other among => List.mem_cons_of_mem _ among, ?_, ?_, ?_⟩
  · intro sound
    refine ⟨?_, fun other known => ?_⟩
    · refine List.nodup_append.mpr ⟨sound.distinct, List.pairwise_singleton .., ?_⟩
      intro other known new among same
      obtain rfl := List.mem_singleton.mp among
      exact free (same ▸ sound.taken other known)
    · rcases List.mem_append.mp known with old | new
      · exact List.mem_cons_of_mem _ (sound.taken other old)
      · exact List.mem_singleton.mp new ▸ List.mem_cons_self
  · intro other among known
    rcases List.mem_append.mp known with old | new
    · exact old
    · exact absurd (List.mem_singleton.mp new ▸ among) free
  · intro entry among
    obtain rfl := List.mem_singleton.mp among
    simp

end

end Scope

namespace BodyParser

variable {names : CallScope} {scope : Scope}

theorem declaration_leads {stream : TokenStream} {read : Parsed stream (Stmt × Scope)}
    (done : declaration names scope stream = .ok read) :
    scope.Leads read.value.1.declared read.value.2 := by
  unfold declaration at done
  dsimp only at done
  split at done
  · cases done
  · rename_i type _
    split at done
    · cases done
    · obtain ⟨name, _, done⟩ := ok_of_bind done
      obtain ⟨init, _, done⟩ := ok_of_bind done
      obtain ⟨semicolon, _, done⟩ := ok_of_bind done
      obtain ⟨declared, added, done⟩ := ok_of_bind done
      cases done
      exact Scope.addLocal_leads added

theorem simpleStatement_leads {stream : TokenStream} {read : Parsed stream (Stmt × Scope)}
    (done : simpleStatement names scope stream = .ok read) :
    scope.Leads read.value.1.declared read.value.2 := by
  unfold simpleStatement at done
  split at done
  · unfold returnStatement at done
    obtain ⟨keyword, _, done⟩ := ok_of_bind done
    dsimp only at done
    split at done
    · split at done
      · cases done
      · cases done
        exact .of_same rfl rfl
    · obtain ⟨value, _, done⟩ := ok_of_bind done
      split at done
      · cases done
      · obtain ⟨semicolon, _, done⟩ := ok_of_bind done
        cases done
        exact .of_same rfl rfl
  · split at done
    · unfold waitStatement at done
      obtain ⟨keyword, _, done⟩ := ok_of_bind done
      obtain ⟨opening, _, done⟩ := ok_of_bind done
      obtain ⟨count, _, done⟩ := ok_of_bind done
      split at done
      · cases done
      · obtain ⟨closing, _, done⟩ := ok_of_bind done
        obtain ⟨semicolon, _, done⟩ := ok_of_bind done
        cases done
        exact .of_same rfl rfl
    · split at done
      · unfold assignment at done
        obtain ⟨name, _, done⟩ := ok_of_bind done
        obtain ⟨found, _, done⟩ := ok_of_bind done
        obtain ⟨equal, _, done⟩ := ok_of_bind done
        obtain ⟨value, _, done⟩ := ok_of_bind done
        obtain ⟨semicolon, _, done⟩ := ok_of_bind done
        cases done
        exact .of_same rfl rfl
      · split at done
        · exact declaration_leads done
        · unfold exprStatement at done
          obtain ⟨value, _, done⟩ := ok_of_bind done
          obtain ⟨semicolon, _, done⟩ := ok_of_bind done
          cases done
          exact .of_same rfl rfl

mutual

theorem block_leads (scope : Scope) (stream : TokenStream) {read : Parsed stream (Block × Scope)}
    (done : block names scope stream = .ok read) :
    scope.Leads (Stmt.declaredIn read.value.1.stmts) read.value.2 := by
  rw [block] at done
  obtain ⟨opening, _, done⟩ := ok_of_bind done
  obtain ⟨body, inside, done⟩ := ok_of_bind done
  have shorter := opening.shorter
  have opened : scope.Leads [] scope.pushBlock := .of_same rfl rfl
  have leads := statements_leads scope.pushBlock opening.rest inside
  have closed : body.value.2.2.Leads [] body.value.2.2.popBlock := .of_same rfl rfl
  cases done
  simpa using (opened.trans leads).trans closed
termination_by 8 * stream.size

theorem statements_leads (scope : Scope) (stream : TokenStream)
    {read : Parsed stream (List Stmt × Token × Scope)}
    (done : statements names scope stream = .ok read) :
    scope.Leads (Stmt.declaredIn read.value.1) read.value.2.2 := by
  rw [statements] at done
  split at done
  · cases done
    exact .of_same rfl rfl
  · split at done
    · cases done
    · obtain ⟨first, leading, done⟩ := ok_of_bind done
      obtain ⟨more, behind, done⟩ := ok_of_bind done
      have shorter := first.shorter
      have leads := statement_leads scope stream leading
      have further := statements_leads first.value.2 first.rest behind
      cases done
      exact leads.trans further
termination_by 8 * stream.size + 2

theorem statement_leads (scope : Scope) (stream : TokenStream)
    {read : Parsed stream (Stmt × Scope)} (done : statement names scope stream = .ok read) :
    scope.Leads read.value.1.declared read.value.2 := by
  rw [statement] at done
  split at done
  · obtain ⟨inner, inside, done⟩ := ok_of_bind done
    have leads := block_leads scope stream inside
    cases done
    exact leads
  · exact simpleStatement_leads done
termination_by 8 * stream.size + 1

end

end BodyParser

structure Signature.Placed (signature : Signature) (classes : ClassTable) : Prop where
  owned : ∀ owner, signature.header.owner = some owner → classes.contains owner = true
  enclosed : ∀ className, signature.classBlock = some className →
    signature.header.owner = some className

namespace Compiler

variable {env : CompileEnv}

theorem addParams_leads : ∀ {params : List Param} {scope later : Scope},
    addParams scope params = .ok later → ∃ declared, scope.Leads declared later ∧
      declared.map Prod.snd = params.map Param.name ∧
        ∀ (place : Nat) (entry : VarId × String), declared[place]? = some entry →
          entry.1 = ⟨scope.locals.length + place⟩
  | [], scope, later, done => by
      cases done
      exact ⟨[], .of_same rfl rfl, rfl, nofun⟩
  | param :: rest, scope, later, done => by
      rw [addParams] at done
      obtain ⟨⟨id, between⟩, added, done⟩ := ok_of_bind done
      obtain ⟨declared, leads, named, numbered⟩ := addParams_leads done
      have first := Scope.addLocal_leads added
      have counted : id = ⟨scope.locals.length⟩ ∧
          between.locals.length = scope.locals.length + 1 := by
        obtain ⟨_, rfl, rfl⟩ := Scope.addLocal_eq_ok_iff.mp added
        exact ⟨rfl, List.length_append ..⟩
      refine ⟨_, first.trans leads, by simp [named], fun place entry found => ?_⟩
      cases place with
      | zero =>
          cases found
          exact counted.1
      | succ place =>
          rw [numbered place entry found, counted.2, Nat.add_assoc, Nat.add_comm 1 place]

theorem ownerScope_reserved (classes : ClassTable) (scope : Scope) (owner? : Option String) :
    let inside := ownerScope classes scope owner?
    inside.locals = scope.locals ∧
      ∀ owner, owner? = some owner → "this" ∈ inside.taken ∧
        ∀ parent, classes.parent? owner = some parent → "super" ∈ inside.taken := by
  have members : ∀ (fields : Variables) (scope : Scope),
      let inside := fields.foldl (fun scope member => scope.addMember member.name member.type) scope
      inside.locals = scope.locals ∧ inside.taken = scope.taken := by
    intro fields
    induction fields with
    | nil => exact fun _ => ⟨rfl, rfl⟩
    | cons field rest ih =>
        intro scope
        obtain ⟨locals, taken⟩ := ih (scope.addMember field.name field.type)
        exact ⟨locals.trans (Scope.add_locals _), taken.trans (Scope.add_taken _)⟩
  cases owner? with
  | none => exact ⟨rfl, nofun⟩
  | some owner =>
      have this := members ((classes.members? owner).getD [])
        (scope.addReserved .this (.object owner))
      cases known : classes.parent? owner with
      | none =>
          simp only [ownerScope, known]
          refine ⟨this.1.trans (Scope.add_locals _), fun other same => ?_⟩
          cases same
          rw [this.2, known]
          exact ⟨List.mem_cons_self, nofun⟩
      | some parent =>
          have super := members ((classes.members? owner).getD [])
            ((scope.addReserved .this (.object owner)).addReserved .super (.object parent))
          simp only [ownerScope, known]
          refine ⟨super.1.trans ((Scope.add_locals _).trans (Scope.add_locals _)),
            fun other same => ?_⟩
          cases same
          rw [super.2]
          exact ⟨List.mem_cons_of_mem _ List.mem_cons_self, fun _ _ => List.mem_cons_self⟩

theorem localId?_of_placed {function : Function} (distinct : function.locals.Nodup) {id : VarId}
    {name : String} (placed : function.locals[id.number]? = some name) :
    function.localId? name = some id := by
  obtain ⟨inside, found⟩ := List.getElem?_eq_some_iff.mp placed
  have first : function.locals.findIdx? (fun known => known = name) = some id.number := by
    refine List.findIdx?_eq_some_iff_getElem.mpr ⟨inside, by simpa using found, ?_⟩
    intro before earlier same
    have same : function.locals[before] = name := by simpa using same
    have places := (List.getElem_inj distinct).mp (same.trans found.symm)
    exact Nat.ne_of_lt earlier places
  rw [Function.localId?, first]
  rfl

theorem localId?_eq_some_iff {function : Function} (distinct : function.locals.Nodup)
    {name : String} {id : VarId} :
    function.localId? name = some id ↔ function.locals[id.number]? = some name := by
  refine ⟨fun known => ?_, localId?_of_placed distinct⟩
  obtain ⟨place, found, rfl⟩ := Option.map_eq_some_iff.mp known
  obtain ⟨inside, same, _⟩ := List.findIdx?_eq_some_iff_getElem.mp found
  exact List.getElem?_eq_some_iff.mpr ⟨inside, of_decide_eq_true same⟩

theorem compileBody_coherent {program : ProgramId} {declared : List Signature}
    {published : List Function} {stream : TokenStream} {signature : Signature}
    {function : Function}
    (compiled : compileBody env program declared published stream signature = .ok function)
    (placed : signature.Placed env.classes) : function.Coherent env.classes := by
  unfold compileBody at compiled
  obtain ⟨scope, params, compiled⟩ := ok_of_bind compiled
  obtain ⟨body, read, compiled⟩ := ok_of_bind compiled
  cases compiled
  obtain ⟨entries, leads, named, numbered⟩ := addParams_leads params
  obtain ⟨empty, reserved⟩ := ownerScope_reserved env.classes
    { returns := signature.header.returns } signature.header.owner
  have whole := leads.trans (BodyParser.block_leads scope _ read)
  have sound := whole.sound ⟨by simp [empty], by simp [empty]⟩
  have unnamed : ∀ name, name ∈ (ownerScope env.classes { returns := signature.header.returns }
      signature.header.owner).taken → name ∉ body.value.2.locals := by
    intro name taken known
    have old := whole.fresh name taken known
    rw [empty] at old
    cases old
  have missing : ∀ name, name ∉ body.value.2.locals →
      (body.value.2.locals.findIdx? fun known => known = name).map VarId.mk = none := by
    intro name unnamed
    rw [Option.map_eq_none_iff, List.findIdx?_eq_none_iff]
    intro known among
    have different : known ≠ name := fun same => unnamed (same ▸ among)
    simpa using different
  refine ⟨fun place param found => ?_, fun entry among => ?_, fun owner same => ?_,
    fun owner parent same known => ?_, placed.owned, placed.enclosed⟩
  · have entry : ∃ entry, entries[place]? = some entry ∧ entry.2 = param.name := by
      have listed := congrArg (fun names : List String => names[place]?) named
      simp only [List.getElem?_map] at listed
      have found : signature.header.params.params[place]? = some param := found
      rw [found] at listed
      exact Option.map_eq_some_iff.mp listed
    obtain ⟨entry, known, name⟩ := entry
    have id := numbered place entry known
    rw [empty] at id
    have placed := whole.placed entry (List.mem_append_left _ (List.mem_of_getElem? known))
    have placed : body.value.2.locals[(VarId.mk place).number]? = some param.name := by
      simpa [id, name] using placed
    exact localId?_of_placed sound.distinct placed
  · exact localId?_of_placed sound.distinct (whole.placed entry (List.mem_append_right _ among))
  · exact missing "this" (unnamed "this" (reserved owner same).1)
  · exact missing "super" (unnamed "super" ((reserved owner same).2 parent known))

theorem readHeader_owner {classes : ClassTable} {classBlock : Option String}
    {stream : TokenStream} {read : Parsed stream Header}
    (inside : ∀ name, classBlock = some name → classes.contains name = true)
    (done : Header.read classes classBlock stream = .ok read) :
    (∀ owner, read.value.owner = some owner → classes.contains owner = true) ∧
      ∀ name, classBlock = some name → read.value.owner = some name := by
  unfold Header.read at done
  obtain ⟨modifiers, _, done⟩ := ok_of_bind done
  split at done
  · cases done
  · rename_i returns _
    obtain ⟨owner, named, done⟩ := ok_of_bind done
    obtain ⟨name, _, done⟩ := ok_of_bind done
    obtain ⟨params, _, done⟩ := ok_of_bind done
    cases done
    unfold Header.readOwner at named
    split at named
    · rename_i free
      obtain ⟨className, _, named⟩ := ok_of_bind named
      dsimp only at named
      split at named
      · cases named
      · rename_i known
        obtain ⟨mark, _, named⟩ := ok_of_bind named
        cases named
        refine ⟨fun owner same => ?_, fun name same => ?_⟩
        · cases same
          simpa using known
        · simp [same] at free
    · cases named
      exact ⟨inside, fun _ same => same⟩

theorem readItem_declaration {declared : List Signature} {classBlock : Option String}
    {id : FunctionId} {stream : TokenStream} {found : Parsed stream Signature}
    (read : readItem env declared classBlock id stream = .ok (.declaration found)) :
    readSignature env declared classBlock id stream = .ok found := by
  have declares : ∀ {result : Except CompileError (Parsed stream Signature)},
      (result >>= fun signature => pure (Item.declaration signature)) =
        .ok (.declaration found) → result = .ok found := by
    intro result bound
    obtain ⟨signature, done, same⟩ := ok_of_bind bound
    cases same
    exact done
  unfold readItem at read
  cases classBlock with
  | some className =>
      dsimp only at read
      split at read
      · cases read
      · split at read
        · cases read
        · exact declares read
  | none =>
      dsimp only at read
      split at read
      · cases read
      · split at read
        · obtain ⟨inside, _, read⟩ := ok_of_bind read
          cases read
        · exact declares read

theorem readItem_enterBlock {declared : List Signature} {classBlock : Option String}
    {id : FunctionId} {stream : TokenStream} {inside : Parsed stream String}
    (read : readItem env declared classBlock id stream = .ok (.enterBlock inside)) :
    env.classes.contains inside.value = true := by
  unfold readItem at read
  cases classBlock with
  | some className =>
      dsimp only at read
      split at read
      · cases read
      · split at read
        · cases read
        · obtain ⟨signature, _, read⟩ := ok_of_bind read
          cases read
  | none =>
      dsimp only at read
      split at read
      · cases read
      · split at read
        · obtain ⟨block, entered, read⟩ := ok_of_bind read
          cases read
          unfold readClassBlock at entered
          obtain ⟨className, _, entered⟩ := ok_of_bind entered
          dsimp only at entered
          split at entered
          · cases entered
          · rename_i known
            obtain ⟨opening, _, entered⟩ := ok_of_bind entered
            cases entered
            simpa [Parsed.behind] using known
        · obtain ⟨signature, _, read⟩ := ok_of_bind read
          cases read

theorem readSignature_found {declared : List Signature} {classBlock : Option String}
    {id : FunctionId} {stream : TokenStream} {found : Parsed stream Signature}
    (read : readSignature env declared classBlock id stream = .ok found) :
    ∃ header, Header.read env.classes classBlock stream = .ok header ∧
      isRedefinition env declared classBlock header.value = false ∧
      found.value = { found.value with
        id, header := header.value, classBlock
        startsAt := stream.position, bodyAt := header.rest.position } ∧
      header.rest.skipBlock = (.ok found.value.body, found.rest) := by
  unfold readSignature at read
  obtain ⟨header, headed, read⟩ := ok_of_bind read
  dsimp only at read
  split at read
  · cases read
  · rename_i new
    split at read
    · cases read
    · rename_i skipped
      cases read
      exact ⟨header, headed, by simpa using new, rfl, skipped⟩

theorem readSignatures_placed {declared : List Signature} {classBlock : Option String} {next : Nat}
    {stream : TokenStream}
    (inside : ∀ name, classBlock = some name → env.classes.contains name = true)
    (before : ∀ signature ∈ declared, signature.Placed env.classes) :
    ∀ signature ∈ (readSignatures env declared classBlock next stream).1,
      signature.Placed env.classes := by
  fun_induction readSignatures env declared classBlock next stream with
  | case1 => exact before
  | case2 => exact before
  | case3 _ _ _ _ _ read ih =>
      refine ih (fun name same => ?_) before
      cases same
      exact readItem_enterBlock read
  | case4 _ _ _ _ _ _ ih => exact ih nofun before
  | case5 declared classBlock next stream found read ih =>
      refine ih inside fun signature among => ?_
      rcases List.mem_append.mp among with old | new
      · exact before signature old
      · obtain rfl := List.mem_singleton.mp new
        obtain ⟨header, headed, _, same, _⟩ := readSignature_found (readItem_declaration read)
        have placed := readHeader_owner inside headed
        rw [same]
        exact ⟨placed.1, placed.2⟩

end Compiler

end ScriptEngine
