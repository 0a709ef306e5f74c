import ScriptEngine.Proofs.Rebuilding
import ScriptEngine.Proofs.Renumbering
/-! What a compilation that failed leaves behind. It changes nothing that is loaded, but the identities
that it was given are not given out again, so everything that is loaded later has other ones. Nothing
but the numbers is different. -/

namespace ScriptEngine

/-- What is numbered next in one engine means what is numbered next in the other. -/
structure Renumbering.Follows (renumbering : Renumbering) (ids others : Identities) : Prop where
  functions : ∀ count, renumbering.function ⟨ids.lastFunction + 1 + count⟩ =
    ⟨others.lastFunction + 1 + count⟩
  programs : ∀ count, renumbering.program ⟨ids.lastProgram + 1 + count⟩ =
    ⟨others.lastProgram + 1 + count⟩

namespace Renumbering.Follows

variable {renumbering : Renumbering} {ids others : Identities}

theorem nextProgram (follows : renumbering.Follows ids others) :
    renumbering.program ids.nextProgram.1 = others.nextProgram.1 ∧
      renumbering.Follows ids.nextProgram.2 others.nextProgram.2 := by
  refine ⟨follows.programs 0, follows.functions, fun count => ?_⟩
  have later := follows.programs (count + 1)
  rwa [Nat.add_comm count, ← Nat.add_assoc, ← Nat.add_assoc] at later

theorem skip (follows : renumbering.Follows ids others) (count : Nat) :
    renumbering.Follows { ids with lastFunction := ids.lastFunction + count }
      { others with lastFunction := others.lastFunction + count } := by
  refine ⟨fun more => ?_, follows.programs⟩
  have later := follows.functions (count + more)
  dsimp only
  rwa [Nat.add_right_comm ids.lastFunction, Nat.add_right_comm others.lastFunction,
    Nat.add_assoc _ count, Nat.add_assoc _ count]

end Renumbering.Follows

structure CompileEnv.Renumbered (renumbering : Renumbering) (env other : CompileEnv) : Prop where
  classes : other.classes = env.classes
  withPublic : other.withPublic = env.withPublic
  methods : ∀ className, other.programs.classMethods className =
    (env.programs.classMethods className).map (Function.renumber renumbering)
  published : other.published.listed = env.published.listed.map renumbering.entry

theorem PublicIndex.functions_renumber {renumbering : Renumbering}
    {index other : PublicIndex Function} (listed : other.listed = index.listed.map renumbering.entry) :
    other.functions some = (index.functions some).map (Function.renumber renumbering) := by
  rw [functions_eq, functions_eq, listed, List.filterMap_map, List.map_filterMap]
  rfl

namespace Compiler

variable {renumbering : Renumbering} {env other : CompileEnv}

theorem listed_publish_renumber {index other : PublicIndex Function}
    (listed : other.listed = index.listed.map renumbering.entry) (function : Function) :
    (publish other (function.renumber renumbering)).listed =
      (publish index function).listed.map renumbering.entry := by
  unfold publish
  rw [show (function.renumber renumbering).isPublic = function.isPublic from rfl]
  split
  · have kept : ∀ entry : FunctionId × Function,
        decide ((renumbering.entry entry).1 ≠ (function.renumber renumbering).id) =
          decide (entry.1 ≠ function.id) := by
      intro entry
      refine decide_eq_decide.mpr (not_congr ⟨renumbering.functions _ _, fun same => ?_⟩)
      exact congrArg renumbering.function same
    rw [PublicIndex.listed_insert, PublicIndex.listed_insert, listed, List.map_cons,
      List.filter_map]
    simp only [Function.comp_def, kept]
    rfl
  · exact listed

def Item.renumber {stream : TokenStream} (renumbering : Renumbering) : Item stream → Item stream
  | .finished => .finished
  | .enterBlock inside => .enterBlock inside
  | .leaveBlock behind => .leaveBlock behind
  | .declaration found => .declaration (found.map (Signature.renumber renumbering))

section

variable (alike : env.Renumbered renumbering other)
include alike

theorem isRedefinition_renumber (declared : List Signature) (classBlock : Option String)
    (header : Header) :
    isRedefinition other (declared.map (Signature.renumber renumbering)) classBlock header =
      isRedefinition env declared classBlock header := by
  unfold isRedefinition
  simp only [List.any_map, alike.methods, alike.classes,
    PublicIndex.functions_renumber alike.published]
  rfl

theorem readSignature_renumber (declared : List Signature) (classBlock : Option String)
    (id : FunctionId) (stream : TokenStream) :
    readSignature other (declared.map (Signature.renumber renumbering)) classBlock
        (renumbering.function id) stream =
      (readSignature env declared classBlock id stream).map
        (Parsed.map (Signature.renumber renumbering)) := by
  unfold readSignature
  rw [alike.classes]
  refine bind_unchanged fun header => ?_
  rw [isRedefinition_renumber alike]
  refine ite_change rfl ?_
  split <;> rfl

theorem readItem_renumber (declared : List Signature) (classBlock : Option String)
    (id : FunctionId) (stream : TokenStream) :
    readItem other (declared.map (Signature.renumber renumbering)) classBlock
        (renumbering.function id) stream =
      (readItem env declared classBlock id stream).map (Item.renumber renumbering) := by
  have declaration := readSignature_renumber alike declared classBlock id stream
  unfold readItem
  cases classBlock with
  | some className =>
      cases stream.closeBlock? with
      | some closing => rfl
      | none => exact ite_change rfl (bind_change declaration fun _ => rfl)
  | none =>
      refine ite_change rfl ?_
      cases stream.take? .classKeyword with
      | some keyword =>
          rw [alike.classes]
          exact bind_unchanged fun inside => rfl
      | none => exact bind_change declaration fun _ => rfl

theorem readSignatures_renumber {declared : List Signature} {classBlock : Option String}
    {next number : Nat} {stream : TokenStream}
    (follows : ∀ count, renumbering.function ⟨next + count⟩ = ⟨number + count⟩) :
    readSignatures other (declared.map (Signature.renumber renumbering)) classBlock number stream =
      ((readSignatures env declared classBlock next stream).1.map (Signature.renumber renumbering),
        (readSignatures env declared classBlock next stream).2) := by
  have item : ∀ declared classBlock next number stream,
      (∀ count, renumbering.function ⟨next + count⟩ = ⟨number + count⟩) →
        readItem other (declared.map (Signature.renumber renumbering)) classBlock ⟨number⟩ stream =
          (readItem env declared classBlock ⟨next⟩ stream).map (Item.renumber renumbering) := by
    intro declared classBlock next number stream follows
    rw [show (⟨number⟩ : FunctionId) = renumbering.function ⟨next⟩ from (follows 0).symm]
    exact readItem_renumber alike declared classBlock ⟨next⟩ stream
  fun_induction readSignatures env declared classBlock next stream generalizing number with
  | case1 declared classBlock next stream error read =>
      rw [readSignatures, item _ _ _ _ _ follows, read]
      rfl
  | case2 declared classBlock next stream read =>
      rw [readSignatures, item _ _ _ _ _ follows, read]
      rfl
  | case3 declared classBlock next stream inside read ih =>
      rw [readSignatures, item _ _ _ _ _ follows, read]
      exact ih follows
  | case4 declared classBlock next stream behind read ih =>
      rw [readSignatures, item _ _ _ _ _ follows, read]
      exact ih follows
  | case5 declared classBlock next stream found read ih =>
      rw [readSignatures, item _ _ _ _ _ follows, read]
      have later := @ih (number + 1) fun count => by
        rw [Nat.add_right_comm, Nat.add_right_comm number]
        exact follows (count + 1)
      rw [List.map_append] at later
      exact later

theorem callScope_renumber (declared : List Signature) (published : List Function) :
    callScope other (declared.map (Signature.renumber renumbering))
        (published.map (Function.renumber renumbering)) =
      (callScope env declared published).renumber renumbering := by
  simp only [callScope, CallScope.renumber, alike.classes, alike.withPublic, alike.methods,
    List.filter_map, List.map_map, List.map_append]
  rfl

theorem compileBody_renumber (program : ProgramId) (declared : List Signature)
    (published : List Function) (stream : TokenStream) (signature : Signature) :
    compileBody other (renumbering.program program)
        (declared.map (Signature.renumber renumbering))
        (published.map (Function.renumber renumbering)) stream (signature.renumber renumbering) =
      (compileBody env program declared published stream signature).map
        (Function.renumber renumbering) := by
  unfold compileBody
  rw [alike.classes, callScope_renumber alike]
  refine bind_unchanged fun scope => ?_
  exact bind_change (BodyParser.block_renumber _ scope _) fun body => rfl

theorem compileBodies_renumber {program : ProgramId} {declared : List Signature}
    {stream : TokenStream} {signatures : List Signature} :
    ∀ {announced also : List FunctionId} {index renumbered : PublicIndex Function},
      renumbered.listed = index.listed.map renumbering.entry →
      (compileBodies other (renumbering.program program)
          (declared.map (Signature.renumber renumbering)) stream also renumbered
          (signatures.map (Signature.renumber renumbering))).1 =
        (compileBodies env program declared stream announced index signatures).1.map
          (List.map (Function.renumber renumbering)) := by
  induction signatures with
  | nil => exact fun _ => rfl
  | cons signature rest ih =>
      intro announced also index renumbered listed
      rw [List.map_cons, compileBodies, compileBodies, PublicIndex.functions_renumber listed,
        compileBody_renumber alike]
      cases compiled : compileBody env program declared (index.functions some) stream signature with
      | error error => rfl
      | ok function =>
          have later := @ih (if function.isPublic then announced ++ [function.id] else announced)
            (if (function.renumber renumbering).isPublic then
              also ++ [(function.renumber renumbering).id] else also) _ _
            (listed_publish_renumber listed function)
          dsimp only [Except.map] at later ⊢
          generalize compileBodies env _ _ _ _ _ rest = plain at later ⊢
          generalize compileBodies other _ _ _ _ _ _ = changed at later ⊢
          obtain ⟨functions, _⟩ := plain
          obtain ⟨_, _⟩ := changed
          dsimp only at later
          subst later
          cases functions <;> rfl

theorem compile_renumber {id : ProgramId} {name source : String} {ids others : Identities}
    (follows : renumbering.Follows ids others) :
    ∃ count,
      (compile env id name source ids).2.1 =
        { ids with lastFunction := ids.lastFunction + count } ∧
      (compile other (renumbering.program id) name source others).2.1 =
        { others with lastFunction := others.lastFunction + count } ∧
      (compile other (renumbering.program id) name source others).1 =
        (compile env id name source ids).1.map (Program.renumber renumbering) := by
  have read := fun tokens =>
    @readSignatures_renumber _ _ _ alike [] none _ _ (.ofTokens tokens) follows.functions
  simp only [List.map_nil] at read
  unfold compile declarations
  cases tokenize source with
  | error error => exact ⟨0, rfl, rfl, rfl⟩
  | ok tokens =>
      dsimp only
      rw [read]
      generalize readSignatures env _ _ _ _ = result
      obtain ⟨declared, failure⟩ := result
      refine ⟨declared.length, ?_⟩
      dsimp only
      cases failure with
      | some error => exact ⟨rfl, by rw [List.length_map], rfl⟩
      | none =>
          have bodies := @compileBodies_renumber _ _ _ alike id declared (.ofTokens tokens) declared
            [] [] env.published other.published alike.published
          dsimp only
          generalize compileBodies env _ _ _ _ _ _ = plain at bodies ⊢
          generalize compileBodies other _ _ _ _ _ _ = changed at bodies ⊢
          obtain ⟨functions, _⟩ := plain
          obtain ⟨_, _⟩ := changed
          dsimp only at bodies
          subst bodies
          cases functions <;> exact ⟨rfl, by rw [List.length_map]; rfl, rfl⟩

end

end Compiler

structure Engine.Renumbered (renumbering : Renumbering) (engine other : Engine) : Prop where
  classes : other.code.classes = engine.code.classes
  resolvePublic : other.code.resolvePublic = engine.code.resolvePublic
  loaded : other.code.programs.loaded =
    engine.code.programs.loaded.map (Program.renumber renumbering)
  follows : renumbering.Follows engine.ids other.ids

section

variable {renumbering : Renumbering} {engine other : Engine} {known more : List Function}

theorem Program.methods_renumber (program : Program) (className : String) :
    (program.renumber renumbering).methods className =
      (program.methods className).map (Function.renumber renumbering) :=
  List.filter_map ..

theorem Program.publicFunctions_renumber (program : Program) :
    (program.renumber renumbering).publicFunctions =
      program.publicFunctions.map (Function.renumber renumbering) :=
  List.filter_map ..

namespace Engine.Renumbered

theorem env (renumbered : engine.Renumbered renumbering other) (knows : engine.Knows known)
    (also : other.Knows more) : engine.compileEnv.Renumbered renumbering other.compileEnv where
  classes := renumbered.classes
  withPublic := by
    unfold compileEnv
    rw [renumbered.resolvePublic]
  methods := by
    intro className
    unfold compileEnv
    dsimp only
    rw [knows.classMethods, also.classMethods, renumbered.loaded, List.flatMap_map,
      List.map_flatMap]
    simp only [Program.methods_renumber]
  published := by
    unfold compileEnv
    dsimp only
    rw [knows.published, also.published, Programs.publicFunctions, Programs.publicFunctions,
      renumbered.loaded, List.flatMap_map, List.map_map]
    simp only [Program.publicFunctions_renumber]
    rw [← List.map_flatMap, ← List.map_reverse, List.map_map]
    rfl

theorem compile (renumbered : engine.Renumbered renumbering other) (knows : engine.Knows known)
    (also : other.Knows more) (name source : String) :
    (other.compile name source).1 = (engine.compile name source).1.map renumbering.program ∧
      (engine.compile name source).2.Renumbered renumbering (other.compile name source).2 := by
  obtain ⟨next, follows⟩ := renumbered.follows.nextProgram
  obtain ⟨count, ids, others, same⟩ := @Compiler.compile_renumber _ _ _
    (renumbered.env knows also) engine.ids.nextProgram.1 name source _ _ follows
  rw [next] at others same
  unfold Engine.compile
  dsimp only
  generalize Compiler.compile engine.compileEnv _ _ _ _ = plain at ids same ⊢
  generalize Compiler.compile other.compileEnv _ _ _ _ = changed at others same ⊢
  obtain ⟨result, _, _⟩ := plain
  obtain ⟨_, _, _⟩ := changed
  dsimp only at ids others same
  subst ids others same
  cases result with
  | error error =>
      exact ⟨rfl, renumbered.classes, renumbered.resolvePublic, renumbered.loaded,
        follows.skip count⟩
  | ok program =>
      refine ⟨congrArg Except.ok next.symm, renumbered.classes, renumbered.resolvePublic, ?_,
        follows.skip count⟩
      dsimp only [Except.map, Programs.insert]
      rw [renumbered.loaded, List.map_append]
      rfl

theorem get? (renumbered : engine.Renumbered renumbering other) (id : ProgramId) :
    other.code.programs.get? (renumbering.program id) =
      (engine.code.programs.get? id).map (Program.renumber renumbering) := by
  have same : ∀ program : Program,
      decide ((program.renumber renumbering).id = renumbering.program id) =
        decide (program.id = id) := fun program =>
    decide_eq_decide.mpr ⟨renumbering.programs _ _, congrArg renumbering.program⟩
  unfold Programs.get?
  rw [renumbered.loaded, List.find?_map]
  simp only [Function.comp_def, same]

theorem remove (renumbered : engine.Renumbered renumbering other) (id : ProgramId) :
    (other.code.programs.remove (renumbering.program id)).loaded =
      (engine.code.programs.remove id).loaded.map (Program.renumber renumbering) := by
  have same : ∀ program : Program,
      decide ((program.renumber renumbering).id ≠ renumbering.program id) =
        decide (program.id ≠ id) := fun program =>
    decide_eq_decide.mpr (not_congr ⟨renumbering.programs _ _, congrArg renumbering.program⟩)
  unfold Programs.remove
  dsimp only
  rw [renumbered.loaded, List.filter_map]
  simp only [Function.comp_def, same]

theorem of_twins {after behind : Engine} (renumbered : engine.Renumbered renumbering other)
    (twin : engine.Twin after) (also : other.Twin behind) :
    after.Renumbered renumbering behind where
  classes := by rw [twin.code, also.code, renumbered.classes]
  resolvePublic := by rw [twin.code, also.code, renumbered.resolvePublic]
  loaded := by rw [twin.code, also.code, renumbered.loaded]
  follows := by
    refine ⟨?_, ?_⟩
    · rw [twin.functions, also.functions]
      exact renumbered.follows.functions
    · rw [twin.programs, also.programs]
      exact renumbered.follows.programs

end Engine.Renumbered

/-- An operation that means the same on an engine with other identities. -/
def Operation.renumber (renumbering : Renumbering) : Operation → Operation
  | .unload program => .unload (renumbering.program program)
  | .bindInstance program handle => .bindInstance (renumbering.program program) handle
  | .newStack program => .newStack (renumbering.program program)
  | operation => operation

theorem Operation.isSetup_renumber (operation : Operation) :
    (operation.renumber renumbering).isSetup = operation.isSetup := by
  cases operation <;> rfl

namespace Host

theorem step_renumbered {host copy : Host} (knows : host.engine.Knows known)
    (also : copy.engine.Knows more) (renumbered : host.engine.Renumbered renumbering copy.engine)
    (operation : Operation) : (host.step operation).engine.Renumbered renumbering
      (copy.step (operation.renumber renumbering)).engine := by
  cases sets : operation.isSetup with
  | false =>
      exact renumbered.of_twins (step_twin sets) (step_twin (operation.isSetup_renumber.trans sets))
  | true =>
      cases operation with
      | register decl =>
          simp only [Operation.renumber, step, Engine.register, renumbered.classes]
          cases host.engine.code.classes.register decl with
          | error error => exact renumbered
          | ok classes =>
              exact ⟨rfl, renumbered.resolvePublic, renumbered.loaded, renumbered.follows⟩
      | compile name source => exact (renumbered.compile knows also name source).2
      | unload program =>
          simp only [Operation.renumber, step, Engine.unload, renumbered.get?]
          cases host.engine.code.programs.get? program with
          | none => exact renumbered
          | some found =>
              exact ⟨renumbered.classes, renumbered.resolvePublic, renumbered.remove program,
                renumbered.follows⟩
      | set setting value =>
          cases setting with
          | maxCallDepth | maxLockWaiters =>
              exact ⟨renumbered.classes, renumbered.resolvePublic, renumbered.loaded,
                renumbered.follows⟩
          | resolvePublicCalls =>
              exact ⟨renumbered.classes, rfl, renumbered.loaded, renumbered.follows⟩
      | newInstance | bindInstance | changeHeap | newStack | call | callMethod | resume | abort
      | copy | reload => cases sets

/-- Hosts that do the same stay the same but for their identities. -/
theorem after_renumbered {operations others : List Operation}
    (renumbered : (after operations).engine.Renumbered renumbering (after others).engine)
    (later : List Operation) : (after (operations ++ later)).engine.Renumbered renumbering
      (after (others ++ later.map (Operation.renumber renumbering))).engine := by
  induction later using List.reverseRecOn with
  | nil => simpa using renumbered
  | append_singleton later operation ih =>
      obtain ⟨_, knows⟩ := after_knows (operations ++ later)
      obtain ⟨_, also⟩ := after_knows (others ++ later.map (Operation.renumber renumbering))
      rw [List.map_append, List.map_singleton, ← List.append_assoc, ← List.append_assoc,
        after_concat, after_concat]
      exact step_renumbered knows also ih operation

end Host

end

/-! ### What was loaded before -/

theorem Compiler.compile_callee {env : CompileEnv} {id : ProgramId} {name source : String}
    {ids after : Identities} {program : Program} {published : PublicIndex Function}
    (compiled : compile env id name source ids = (.ok program, after, published))
    {function : Function} (declared : function ∈ program.functions) {site : CallSite}
    {operands : List Expr} (placed : (site, operands) ∈ function.calls) :
    ∃ callee : Function, callee.id = site.callee ∧ (callee ∈ program.functions ∨
      callee ∈ env.published.functions some ∨
      ∃ className, callee ∈ env.programs.classMethods className) := by
  obtain ⟨visible, typed, known⟩ := compile_typed compiled function declared
  obtain ⟨_, resolves⟩ := typed.body.resolves placed
  cases resolves with
  | free _ resolved same =>
      obtain ⟨callee, rfl, found⟩ := callScope_found resolved
      refine ⟨callee, same, ?_⟩
      rcases List.mem_append.mp (Overload.search_mem found) with own | seen
      · exact Or.inl (List.mem_filter.mp own).1
      · split at seen
        · rcases known callee seen with old | new
          · exact Or.inr (Or.inl old)
          · exact Or.inl new.1
        · cases seen
  | method _ _ resolved same =>
      obtain ⟨candidates, offered, searched⟩ := Overload.resolveAlong_searched resolved
      obtain ⟨decl, _, rfl⟩ := List.mem_map.mp offered
      dsimp only [Function.surroundings] at searched
      rw [callScope_methods] at searched
      obtain ⟨callee, rfl, found⟩ := Overload.search_map searched
      refine ⟨callee, same, ?_⟩
      rcases List.mem_append.mp (Overload.search_mem found) with own | loaded
      · exact Or.inl (List.mem_filter.mp own).1
      · exact Or.inr (Or.inr ⟨decl.name, loaded⟩)

def Engine.BoundBelow (engine : Engine) : Prop :=
  ∀ program ∈ engine.code.programs, ∀ function ∈ program.functions, ∀ call ∈ function.calls,
    call.1.callee.number ≤ engine.ids.lastFunction

namespace Engine.BoundBelow

variable {engine : Engine} {known : List Function}

theorem compile (bound : engine.BoundBelow) (knows : engine.Knows known) (name source : String) :
    (engine.compile name source).2.BoundBelow := by
  unfold Engine.compile
  dsimp only
  cases compiled : Compiler.compile engine.compileEnv engine.ids.nextProgram.1 name source
    engine.ids.nextProgram.2 with
  | mk result after =>
      obtain ⟨ids, published⟩ := after
      cases result with
      | error error =>
          obtain ⟨count, rfl⟩ := Compiler.compile_failed compiled
          intro program loaded function declared call placed
          exact Nat.le_trans (bound program loaded function declared call placed)
            (Nat.le_add_right ..)
      | ok program =>
          have made := Compiler.compile_made compiled
          have counted : engine.ids.lastFunction ≤ ids.lastFunction := by
            rw [made.counted]
            exact Nat.le_add_right ..
          intro loaded among function declared ⟨site, operands⟩ placed
          rcases List.mem_append.mp among with old | new
          · exact Nat.le_trans (bound loaded old function declared _ placed) counted
          · obtain rfl := List.mem_singleton.mp new
            obtain ⟨callee, same, found⟩ := Compiler.compile_callee compiled declared placed
            dsimp only
            rw [← same]
            rcases found with own | seen | ⟨className, held⟩
            · exact (made.number own).2
            · obtain ⟨_, loaded, defined, _⟩ := knows.mem_publicFunctions.mp seen
              exact Nat.le_trans (knows.bounded _ (knows.loaded _ loaded _ defined).1) counted
            · obtain ⟨_, loaded, defined, _⟩ := Programs.mem_classMethods held
              exact Nat.le_trans (knows.bounded _ (knows.loaded _ loaded _ defined).1) counted

theorem turn {after : Engine} (bound : engine.BoundBelow) (knows : engine.Knows known)
    (turn : engine.Turn after) : after.BoundBelow := by
  cases turn with
  | kept programs _ _ functions _ =>
      unfold BoundBelow
      rw [programs, functions]
      exact bound
  | compiled name source => exact bound.compile knows name source
  | unloaded unloaded =>
      unfold Engine.unload at unloaded
      split at unloaded
      · cases unloaded
      · cases unloaded
        exact fun program loaded => bound program (List.mem_filter.mp loaded).1

end Engine.BoundBelow

theorem Host.after_boundBelow (operations : List Operation) :
    (after operations).engine.BoundBelow := by
  induction operations using List.reverseRecOn with
  | nil => exact fun program loaded => nomatch loaded
  | append_singleton operations operation ih =>
      obtain ⟨_, knows⟩ := after_knows operations
      rw [after_concat]
      exact ih.turn knows (step_turn _ operation)

def skipNumber (last spent number : Nat) : Nat := if number ≤ last then number else number + spent

theorem skipNumber_injective {last spent first second : Nat}
    (same : skipNumber last spent first = skipNumber last spent second) : first = second := by
  unfold skipNumber at same
  split at same <;> split at same <;> omega

theorem skipNumber_of_le {last spent number : Nat} (bound : number ≤ last) :
    skipNumber last spent number = number := if_pos bound

theorem skipNumber_next (last spent count : Nat) :
    skipNumber last spent (last + 1 + count) = last + spent + 1 + count := by
  unfold skipNumber
  rw [if_neg (by omega)]
  omega

/-- Identities that are handed out from now on are behind as many others, and one program. -/
def Identities.skipping (ids : Identities) (spent : Nat) : Renumbering where
  function id := ⟨skipNumber ids.lastFunction spent id.number⟩
  program id := ⟨skipNumber ids.lastProgram 1 id.number⟩
  functions _ _ same := congrArg FunctionId.mk (skipNumber_injective (FunctionId.mk.inj same))
  programs _ _ same := congrArg ProgramId.mk (skipNumber_injective (ProgramId.mk.inj same))

/-- The identities behind a failed compilation. -/
def Identities.spend (ids : Identities) (spent : Nat) : Identities :=
  { ids with lastFunction := ids.lastFunction + spent, lastProgram := ids.lastProgram + 1 }

theorem Identities.skipping_follows (ids : Identities) (spent : Nat) :
    (ids.skipping spent).Follows ids (ids.spend spent) where
  functions _ := congrArg FunctionId.mk (skipNumber_next ..)
  programs _ := congrArg ProgramId.mk (skipNumber_next ..)

theorem Engine.Knows.skipping {engine : Engine} {known : List Function} (knows : engine.Knows known)
    (bound : engine.BoundBelow) (spent : Nat) {program : Program}
    (loaded : program ∈ engine.code.programs) :
    program.renumber (engine.ids.skipping spent) = program := by
  have same : (engine.ids.skipping spent).program program.id = program.id :=
    congrArg ProgramId.mk (skipNumber_of_le (knows.numbered program loaded))
  have functions : program.functions.map (Function.renumber (engine.ids.skipping spent)) =
      program.functions := by
    refine (List.map_congr_left fun function declared => ?_).trans (List.map_id _)
    obtain ⟨among, belongs⟩ := knows.loaded program loaded function declared
    refine Function.renumber_eq ?_ (belongs ▸ same) fun call placed => ?_
    · exact congrArg FunctionId.mk (skipNumber_of_le (knows.bounded function among))
    · exact congrArg FunctionId.mk
        (skipNumber_of_le (bound program loaded function declared call placed))
  unfold Program.renumber
  rw [same, functions]

/-- The identities that a compilation uses up are those of the declarations that it read. -/
theorem Compiler.compile_spends (env : CompileEnv) (id : ProgramId) (name source : String)
    (ids : Identities) : (compile env id name source ids).2.1 =
      { ids with lastFunction := ids.lastFunction +
          (declarations env (ids.lastFunction + 1) source).2.1.length } := by
  unfold compile
  dsimp only
  split
  · rfl
  · split <;> rfl

/-- A compilation that fails leaves what is loaded, the public functions in their order, the classes,
the settings and the world, with its guards and its heap, as they were. But it uses up the identity of
one program and those of all declarations that it read. So whatever the host does later, what is loaded
then is what would be without the failure, under identities that are greater by so many, and each
compilation comes to the same but for them. -/
theorem failed_compile_spends_identities {name source : String} {error : EngineError}
    {after : Engine} (operations : List Operation)
    (failed : (Host.after operations).engine.compile name source = (.error error, after)) :
    let engine := (Host.after operations).engine
    let spent :=
      (Compiler.declarations engine.compileEnv (engine.ids.lastFunction + 1) source).2.1.length
    let skipping := engine.ids.skipping spent
    (after = { engine with
        ids := engine.ids.spend spent
        code := { engine.code with published := after.code.published } } ∧
      after.code.published.listed = engine.code.published.listed) ∧
    ∀ later : List Operation,
      let plain := (Host.after (operations ++ later)).engine
      let other := (Host.after (operations ++
        .compile name source :: later.map (Operation.renumber skipping))).engine
      other.code.programs.loaded = plain.code.programs.loaded.map (Program.renumber skipping) ∧
      other.code.publicFunctions = plain.code.publicFunctions.map (Function.renumber skipping) ∧
      ∀ name source,
        (other.compile name source).1 = (plain.compile name source).1.map skipping.program := by
  obtain ⟨known, knows⟩ := Host.after_knows operations
  have bound := Host.after_boundBelow operations
  have behind := Host.after_concat operations (.compile name source)
  intro engine spent skipping
  have left : after = { engine with
        ids := engine.ids.spend spent
        code := { engine.code with published := after.code.published } } ∧
      after.code.published.listed = engine.code.published.listed := by
    unfold Engine.compile at failed
    dsimp only at failed
    cases compiled : Compiler.compile engine.compileEnv engine.ids.nextProgram.1 name source
      engine.ids.nextProgram.2 with
    | mk result rest =>
        obtain ⟨ids, published⟩ := rest
        have spends := Compiler.compile_spends engine.compileEnv engine.ids.nextProgram.1 name
          source engine.ids.nextProgram.2
        rw [compiled] at failed spends
        cases result with
        | ok program => cases failed
        | error error =>
            cases failed
            dsimp only at spends
            subst spends
            exact ⟨rfl, Compiler.compile_withdrawn compiled knows.published_below⟩
  refine ⟨left, fun later => ?_⟩
  have start : engine.Renumbered skipping
      (Host.after (operations ++ [.compile name source])).engine := by
    have same : (Host.after (operations ++ [.compile name source])).engine = after := by
      rw [behind]
      exact congrArg Prod.snd failed
    rw [same, left.1]
    refine ⟨rfl, rfl, ?_, engine.ids.skipping_follows spent⟩
    refine ((List.map_congr_left fun program loaded => ?_).trans (List.map_id _)).symm
    exact knows.skipping bound spent loaded
  have renumbered := Host.after_renumbered start later
  rw [List.append_assoc, List.singleton_append] at renumbered
  obtain ⟨_, before⟩ := Host.after_knows (operations ++ later)
  obtain ⟨_, also⟩ := Host.after_knows
    (operations ++ .compile name source :: later.map (Operation.renumber skipping))
  exact ⟨renumbered.loaded, PublicIndex.functions_renumber (renumbered.env before also).published,
    fun name source => (renumbered.compile before also name source).1⟩

def pickLoaded : List Operation := [.compile "pick" "public int pick() { return 1; }"]

def failsLate : String := "public int early() { return 1; } int late() { return missing; }"

theorem failed_compile_spends_identities_of_failsLate :
    ∃ (error : EngineError) (after : Engine),
      (Host.after pickLoaded).engine.compile "late" failsLate = (.error error, after) ∧
      after.code.published.listed = (Host.after pickLoaded).engine.code.published.listed ∧
      after.ids = ⟨3, 2, 0⟩ ∧
      ∀ source : String,
        ((Host.after (pickLoaded ++ [.compile "late" failsLate, .unload ⟨1⟩])).engine.compile "next"
            source).1 =
          ((Host.after (pickLoaded ++ [.unload ⟨1⟩])).engine.compile "next" source).1.map
            (Identities.skipping ⟨1, 1, 0⟩ 2).program := by
  have fails : ((Host.after pickLoaded).engine.compile "late" failsLate).1.toOption.isNone = true := by
    decide +kernel
  have ids : (Host.after pickLoaded).engine.ids = ⟨1, 1, 0⟩ := by
    decide +kernel
  have spent : (Compiler.declarations (Host.after pickLoaded).engine.compileEnv (1 + 1)
      failsLate).2.1.length = 2 := by
    decide +kernel
  cases failed : (Host.after pickLoaded).engine.compile "late" failsLate with
  | mk result after =>
      rw [failed] at fails
      cases result with
      | ok id => cases fails
      | error error =>
          obtain ⟨⟨left, listed⟩, later⟩ := failed_compile_spends_identities pickLoaded failed
          rw [ids, spent] at left later
          refine ⟨error, after, rfl, listed, ?_, fun source => (later [.unload ⟨1⟩]).2.2 _ source⟩
          rw [left]
          rfl

def afterBroken : List Operation :=
  [.compile "broken" "int broken() { return missing; }",
    .compile "main" "int main() { wait(1); return 7; }"]

def Engine.loadedIds (engine : Engine) : List (ProgramId × List FunctionId) :=
  engine.code.programs.loaded.map fun program => (program.id, program.functions.map Function.id)

/-- A failed compilation leaves other identities to what is loaded next, and a stack that was saved
without it cannot be restored. -/
theorem failed_compile_shifts_identities :
    (Host.after afterBroken).engine.loadedIds = [(⟨2⟩, [⟨2⟩])] ∧
    (Host.after (afterBroken.drop 1)).engine.loadedIds = [(⟨1⟩, [⟨1⟩])] ∧
    ∃ saved ∈ (Host.after (afterBroken.drop 1 ++
        [.newStack ⟨1⟩, .call 0 "main" [] .unlimited])).executions,
      saved.isActive = true ∧
      (Host.after afterBroken).engine.restore saved.unbound = .error (.unknownProgram ⟨1⟩) := by
  refine ⟨by decide +kernel, by decide +kernel, ?_⟩
  have shown : ((Host.after (afterBroken.drop 1 ++
      [.newStack ⟨1⟩, .call 0 "main" [] .unlimited])).executions.any fun saved =>
        saved.isActive && saved.unbound.isActive && decide (saved.unbound.program = ⟨1⟩) &&
          ((Host.after afterBroken).engine.code.programs.get? saved.unbound.program).isNone) =
            true := by
    decide +kernel
  obtain ⟨saved, among, shown⟩ := List.any_eq_true.mp shown
  simp only [Bool.and_eq_true, decide_eq_true_eq] at shown
  obtain ⟨⟨⟨active, waits⟩, named⟩, unknown⟩ := shown
  refine ⟨saved, among, active, ?_⟩
  unfold Engine.restore
  rw [if_neg (by simp [waits]), if_pos unknown, named]

end ScriptEngine
